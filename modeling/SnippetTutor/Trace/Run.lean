import SnippetTutor.Text.Lines
import SnippetTutor.Trace.Step

/-! # Whole runs

A run goes once over the lines. It keeps the records made before a fault, since what
was shown of them stays shown.
-/
namespace SnippetTutor

structure Run where
  records : List StepRecord
  ending : Except Fault Machine

structure Stats where
  steps : Int := 0
  sourceLines : Int := 0
  skippedLines : Int := 0
  outputLines : Int := 0
  functionsDefined : Int := 0
  functionCalls : Int := 0
deriving DecidableEq, Inhabited

structure Trace where
  records : List StepRecord := []
  memory : Memory := []
  output : List Text := []
  stats : Stats := {}
deriving DecidableEq, Inhabited

namespace Run

/-- Goes over the lines from `position` on, of which the next step is numbered
`count`. -/
def walk (config : Config) (position count : Nat) (m : Machine) : List Text → Run
  | [] => ⟨[], .ok m⟩
  | line :: later =>
    if isSkippable config.marker line then walk config (position + 1) count m later
    else match Step.visit config count position line later m with
      | .error fault => ⟨[], .error fault⟩
      | .ok step =>
        let rest := walk config (position + 1) (count + 1) step.machine later
        ⟨step.record :: rest.records, rest.ending⟩

def ofLines (config : Config) (lines : List Text) : Run := walk config 0 0 .initial lines

end Run

namespace Stats

def ofRun (marker : Text) (lines : List Text) (records : List StepRecord) (last : Machine) : Stats where
  steps := records.length
  sourceLines := lines.length
  skippedLines := lines.countP (isSkippable marker)
  outputLines := last.output.length
  functionsDefined := last.memory.countP fun field => field.2.isFunction
  functionCalls := last.calls

def rows (s : Stats) : List (Text × Int) :=
  [("  Source lines:      ".toList, s.sourceLines),
    ("  Skipped lines:     ".toList, s.skippedLines),
    ("  Steps executed:    ".toList, s.steps),
    ("  Output lines:      ".toList, s.outputLines),
    ("  Functions defined: ".toList, s.functionsDefined),
    ("  Function calls:    ".toList, s.functionCalls)]

/-- The counts as a table, in columns of five places. -/
def report (s : Stats) : Text :=
  Text.joinWith ['\n'] ("═══ Trace Statistics ═══".toList ::
    s.rows.map fun row => row.1 ++ Text.padLeft 5 (Text.ofInt row.2))

end Stats

namespace Trace

def ofRun (marker : Text) (lines : List Text) (r : Run) : Except Fault Trace := do
  let last ← r.ending
  .ok ⟨r.records, last.memory, last.output, .ofRun marker lines r.records last⟩

def ofLines (config : Config) (lines : List Text) : Except Fault Trace :=
  ofRun config.marker lines (Run.ofLines config lines)

def ofSource (config : Config) (source : Text) : Except Fault Trace :=
  ofLines config (Text.lines source)

end Trace

/-- Takes one step after another and adds its record to those at hand, until as many have
been added as are wanted or no step is left. Nothing is executed after the last of them. -/
def Step.takeUpTo (config : Config) (lines : List Text) :
    (wanted index : Nat) → Machine → List StepRecord → Except Fault (List StepRecord)
  | 0, _, _, records => .ok records
  | wanted + 1, index, m, records => do
    match ← take? config lines index m records.length with
    | none => .ok records
    | some step => takeUpTo config lines wanted step.next step.machine (records ++ [step.record])

/-- The first `count` steps of a source. -/
def firstSteps (config : Config) (source : Text) (count : Int) : Except Fault (List StepRecord) :=
  if count ≤ 0 then .ok []
  else Step.takeUpTo config (Text.lines source) count.toNat 0 .initial []

/-- The memory in which a source ends. -/
def finalMemory (config : Config) (source : Text) : Except Fault Memory := do
  .ok (← Trace.ofSource config source).memory

end SnippetTutor
