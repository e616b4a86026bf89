import SnippetTutor.Json.Writer
import SnippetTutor.Trace.Run

/-! # Export of traces

A trace goes out as text, one block for each step, or as a JSON document whose steps
have the form of the hand-written steps of a lesson.
-/
namespace SnippetTutor

namespace StepRecord

/-- Output and explanation stand only where there is one. -/
def toJson (r : StepRecord) : Json :=
  .obj ([("line", .int r.lineNumber), ("variables", r.memory.toJson)] ++
    (r.output.map fun t => ("output", Json.text t)).toList ++
    (r.explanation?.map fun t => ("explanation", Json.text t)).toList)

def dumpLines (r : StepRecord) : List Text :=
  ('[' :: Text.ofInt r.index ++ "] line ".toList ++ Text.ofInt r.lineNumber ++ ": ".toList ++
      Text.trim r.source) ::
    (r.outputLines.map ("    > ".toList ++ ·) ++
      r.memory.shown.map (fun field => "    ".toList ++ field.1 ++ " = ".toList ++ field.2) ++
      (r.explanation?.map ("    # ".toList ++ ·)).toList)

def dump (r : StepRecord) : Text := Text.joinWith ['\n'] r.dumpLines

end StepRecord

namespace Trace

/-- The readable form of a list of steps. -/
def dumpRecords (records : List StepRecord) : Text := Text.joinWith ['\n'] (records.map StepRecord.dump)

def dump (t : Trace) : Text := dumpRecords t.records

def toJson (t : Trace) : Json :=
  .obj [("steps", .array (t.records.map StepRecord.toJson)),
    ("output", .array (t.output.map .text)),
    ("variables", t.memory.toJson)]

def exportJson (t : Trace) : Text := t.toJson.pretty

end Trace

end SnippetTutor
