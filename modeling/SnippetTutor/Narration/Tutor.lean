import SnippetTutor.Json.Writer
import SnippetTutor.Narration.Provider
import SnippetTutor.Narration.Template

/-! # Explanations from a chat model

Each step that has no explanation yet is put to the model once. Where the model fails
or answers with nothing but blanks, the template explains the step.
-/
namespace SnippetTutor.Tutor

def systemPrompt : Text :=
  "You are a patient programming tutor for complete beginners.

You receive one line of a short Python snippet that was just executed,
what it printed (if anything), and the variables in memory afterwards.

Explain in ONE short sentence (under 30 words) what the computer did on this
line. Do not use markdown. Do not repeat the code verbatim.
".toList

def maxTokens : Int := 128

def prompt (r : StepRecord) : Text :=
  Json.pretty <| .obj [
    ("line_number", .int r.lineNumber),
    ("line", .text (Text.trim r.source)),
    ("statement_kind", .text r.kind.caption),
    ("printed", match r.output with
      | some t => .text t
      | none => .null),
    ("variables", .object (r.memory.shown.map fun field => (field.1, .text field.2))),
    ("language", .str "python")]

def request (maxTokens : Int) (r : StepRecord) : Completion := ⟨systemPrompt, prompt r, maxTokens⟩

/-- The explanation of a step, given the reply of the model, if there was one. -/
def explain (reply : Option Text) (r : StepRecord) : Except Misfit Text :=
  match (reply.map Text.trim).filter (!·.isEmpty) with
  | some t => .ok t
  | none => Template.explain r

/-- The explained records together with the requests that were made. -/
structure Narration where
  records : List StepRecord := []
  requests : List Completion := []
deriving DecidableEq, Inhabited

/-- Explains the records in order. The replies are those that the model gives to the
requests in turn; none is a failure, and so is a missing reply. -/
def narrate (maxTokens : Int) : List (Option Text) → List StepRecord → Except Misfit Narration
  | _, [] => .ok {}
  | replies, r :: rest =>
    match r.explanation? with
    | some _ => do
      let more ← narrate maxTokens replies rest
      .ok { more with records := r :: more.records }
    | none => do
      let t ← explain (replies.head?.join) r
      let more ← narrate maxTokens (replies.drop 1) rest
      .ok ⟨r.explained t :: more.records, request maxTokens r :: more.requests⟩

end SnippetTutor.Tutor
