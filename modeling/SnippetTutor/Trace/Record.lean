import SnippetTutor.Memory
import SnippetTutor.Statement.Basic

/-! # Step records

A record tells what one executed line did. The lines that a statement printed are
kept as one text with line feeds between them.
-/
namespace SnippetTutor

structure StepRecord where
  index : Int
  lineNumber : Int
  source : Text := []
  kind : StatementKind := .unrecognized
  output : Option Text := none
  memory : Memory := []
  explanation : Option Text := none
deriving DecidableEq, Inhabited

namespace StepRecord

/-- The printed lines. A line that itself holds a line feed counts as several. -/
def outputLines (r : StepRecord) : List Text :=
  match r.output with
  | none => []
  | some t => Text.splitOn '\n' t

/-- The explanation, unless it is missing or empty. -/
def explanation? (r : StepRecord) : Option Text := r.explanation.filter (!·.isEmpty)

def explained (r : StepRecord) (explanation : Text) : StepRecord :=
  { r with explanation := some explanation }

/-- Joins the lines that a statement added to the output. -/
def joinOutput (added : List Text) : Option Text :=
  if added.isEmpty then none else some (Text.joinWith ['\n'] added)

end StepRecord

end SnippetTutor
