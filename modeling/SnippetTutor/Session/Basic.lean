import SnippetTutor.Lesson.Basic
import SnippetTutor.Trace.Run

/-! # Sessions

What a learner has in front of them at one moment, and how it changes. The session
of a lesson with hand-written steps replays these and never runs the snippet.
-/
namespace SnippetTutor

inductive Phase
  | idle
  | stepping
  | completed
deriving DecidableEq, Inhabited

def Phase.label : Phase → Text
  | .idle => "idle".toList
  | .stepping => "stepping".toList
  | .completed => "completed".toList

structure Session where
  source : Text := []
  lines : List Text := []
  authored : Option (List StepRecord) := none
  config : Config := {}
  phase : Phase := .idle
  cursor : Nat := 0
  machine : Machine := .initial
  position : Nat := 0
  console : List Text := []
  memory : Memory := []
  currentLine : Option Int := none
  history : List StepRecord := []
deriving DecidableEq, Inhabited

namespace Session

def ofSource (config : Config) (source : Text) : Session :=
  { source := source, lines := Text.lines source, config := config }

/-- Fails where the steps of the lesson hold a number that is too large. -/
def ofLesson (config : Config) (lesson : Lesson) : Except Fault Session := do
  let records ← lesson.records
  .ok { ofSource config lesson.code with authored := lesson.steps.map fun _ => records }

/-- The session as it was before its first step. -/
def restart (s : Session) : Session :=
  { source := s.source, lines := s.lines, authored := s.authored, config := s.config }

def lastStep? (s : Session) : Option StepRecord := s.history.getLast?

def complete (s : Session) : Session := { s with phase := .completed }

/-- Shows a record as the outcome of the next step. -/
def advance (s : Session) (record : StepRecord) (cursor : Nat) (machine : Machine)
    (isLast : Bool) : Session :=
  { s with
    phase := if isLast then .completed else .stepping
    cursor := cursor
    machine := machine
    position := s.position + 1
    console := s.console ++ record.outputLines
    memory := record.memory
    currentLine := some record.lineNumber
    history := s.history ++ [record] }

/-- Shows the next hand-written step. -/
def replay (s : Session) (records : List StepRecord) : Session :=
  match records[s.position]? with
  | none => s.complete
  | some record => s.advance record s.cursor s.machine (records.length ≤ s.position + 1)

/-- Runs the next line of the snippet. -/
def simulate (s : Session) : Except Fault Session := do
  match ← Step.take? s.config s.lines s.cursor s.machine s.position with
  | none => .ok s.complete
  | some step =>
    .ok (s.advance step.record step.next step.machine
      (Step.nextExecutable? s.config.marker s.lines step.next).isNone)

/-- A completed session stays as it is. -/
def step (s : Session) : Except Fault Session :=
  if s.phase = .completed then .ok s
  else match s.authored with
    | some records => .ok (s.replay records)
    | none => s.simulate

/-- How far a series of steps came, and the fault that ended it, if one did. -/
structure Progress where
  session : Session
  fault : Option Fault := none
deriving DecidableEq, Inhabited

/-- Steps until the session is completed, at most `count` times. -/
def stepUntilCompleted : Nat → Session → Progress
  | 0, s => ⟨s, none⟩
  | count + 1, s =>
    if s.phase = .completed then ⟨s, none⟩
    else match s.step with
      | .ok next => stepUntilCompleted count next
      | .error fault => ⟨s, some fault⟩

/-- More steps than a session can take from its start. -/
def stepBound (s : Session) : Nat :=
  match s.authored with
  | some records => records.length + 1
  | none => s.lines.length + 1

/-- Starts again and steps to the end. -/
def runToEnd (s : Session) : Progress := stepUntilCompleted s.stepBound s.restart

end Session

end SnippetTutor
