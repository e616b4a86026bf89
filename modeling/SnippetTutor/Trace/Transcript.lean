import SnippetTutor.Text.Lines
import SnippetTutor.Trace.Run

/-! # Transcripts

A verbose run shows each step as a block: what was executed, the lines it printed,
and the memory after it.
-/
namespace SnippetTutor

namespace StepRecord

def transcriptLines (r : StepRecord) : List Text :=
  ("[step ".toList ++ Text.ofInt r.index ++ "] line ".toList ++ Text.ofInt r.lineNumber ++
      "  ".toList ++ Text.trim r.source) ::
    ("  (".toList ++ r.kind.caption ++ [')']) ::
    (r.outputLines.map ("    > ".toList ++ ·) ++
      r.memory.shown.map (fun field => "    $".toList ++ field.1 ++ " = ".toList ++ field.2) ++
      [[]])

def transcript (r : StepRecord) : Text := Text.unlines r.transcriptLines

end StepRecord

/-- What is shown while the given steps are run. -/
def Config.transcript (config : Config) (records : List StepRecord) : Text :=
  if config.verbose then records.flatMap StepRecord.transcript else []

end SnippetTutor
