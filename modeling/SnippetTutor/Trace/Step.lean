import SnippetTutor.Machine.Execute
import SnippetTutor.Trace.Record

/-! # One step

A step executes the next line that is neither blank nor a comment. If no such line is
left after it, the step also completes a definition that is still open.
-/
namespace SnippetTutor

/-- The outcome of a step: the record, the machine after it, and where to go on. -/
structure Step where
  next : Nat
  record : StepRecord
  machine : Machine
deriving DecidableEq, Inhabited

namespace Step

/-- The position of the first line at or after `index` that is to be executed. -/
def nextExecutable? (marker : Text) (lines : List Text) (index : Nat) : Option Nat :=
  ((lines.drop index).findIdx? fun line => !isSkippable marker line).map (· + index)

/-- The kind under which a line is run: an indented line outside a definition is run
as if it were not indented. -/
def kindOf (marker line : Text) (m : Machine) : StatementKind :=
  let kind := (Statement.ofLine marker line).kind
  if kind = .functionBodyLine ∧ ¬ m.isCollecting then
    (Statement.ofLine marker (Text.trim line)).kind
  else kind

/-- Whether no line of a rest of the source is to be executed. -/
def isLast (marker : Text) (later : List Text) : Bool := later.all (isSkippable marker)

/-- Executes the line at a position, where `later` are the lines after it. -/
def visit (config : Config) (stepIndex : Int) (position : Nat) (line : Text) (later : List Text)
    (m : Machine) : Except Fault Step := do
  let ran ← m.execute config line
  let done := if isLast config.marker later then ran.closeDefinition else ran
  .ok {
    next := position + 1
    record := {
      index := stepIndex
      lineNumber := position + 1
      source := line
      kind := kindOf config.marker line m
      output := StepRecord.joinOutput (done.output.drop m.output.length)
      memory := done.memory }
    machine := done }

/-- The step from a position in the source, none where nothing is left to execute. A
position before the source counts as its start. -/
def take? (config : Config) (lines : List Text) (index : Int) (m : Machine) (stepIndex : Int) :
    Except Fault (Option Step) :=
  match nextExecutable? config.marker lines index.toNat with
  | none => .ok none
  | some position => match lines.drop position with
    | [] => .ok none
    | line :: later => (visit config stepIndex position line later m).map some

end Step

end SnippetTutor
