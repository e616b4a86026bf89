import SnippetTutor.Text.Lines
import SnippetTutor.Trace.Record

/-! # Lessons

A lesson is a snippet, and possibly steps written by hand. Where there are such
steps they are shown in place of a run of the snippet, even if there are none in the
list.
-/
namespace SnippetTutor

structure AuthoredStep where
  line : Int
  output : Option Text := none
  bindings : Fields Json := []
  explanation : Option Text := none
deriving Inhabited

structure Lesson where
  code : Text
  steps : Option (List AuthoredStep) := none
deriving Inhabited

namespace AuthoredStep

/-- The line that a step shows; a number beyond the source shows an empty line. -/
def sourceLine (step : AuthoredStep) (lines : List Text) : Text :=
  (lines[(step.line - 1).toNat]?).getD []

/-- An empty output is no output. -/
def toRecord (step : AuthoredStep) (index : Nat) (lines : List Text) :
    Except Fault StepRecord := do
  .ok {
    index := index
    lineNumber := step.line
    source := step.sourceLine lines
    output := step.output.filter (!·.isEmpty)
    memory := ← Value.ofJsonFields step.bindings
    explanation := step.explanation }

end AuthoredStep

namespace Lesson

/-- The hand-written steps as records. -/
def records (lesson : Lesson) : Except Fault (List StepRecord) :=
  (lesson.steps.getD []).zipIdx.mapM fun (step, index) =>
    step.toRecord index (Text.lines lesson.code)

end Lesson

end SnippetTutor
