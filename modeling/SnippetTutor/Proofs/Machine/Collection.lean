import SnippetTutor.Proofs.Machine.Invocation
import SnippetTutor.Proofs.Machine.Sequence
import SnippetTutor.Proofs.Statement.Normal

/-! # Collecting a definition

A header opens a definition beside the memory. The lines after it that are skipped or indented
do nothing but fill the body, and the first other line finds the function bound.
-/
namespace SnippetTutor.Machine
open Outcome

/-- What lines leave in the body of an open definition. -/
def storedLines (marker : Text) (lines : List Text) : List Text :=
  (lines.filter fun line => !isSkippable marker line).map fun line => uncomment marker (Text.trim line)

/-- The function that a header defines with the lines after it. -/
def defined (marker name params : Text) (lines : List Text) : Function :=
  ⟨name, Arguments.params params, storedLines marker lines⟩

/-- Opens a definition, or replaces the one that is open. -/
def collecting (m : Machine) (f : Function) : Machine := { m with pending := some f }

/-- No line of these completes an open definition. -/
def Continues (marker : Text) (lines : List Text) : Prop :=
  ∀ line ∈ lines, isSkippable marker line = true ∨ isIndented line = true

variable {config : Config} {marker line name params text : Text} {lines rest : List Text}
  {m : Machine} {f : Function}

theorem storedLines_cons_of_skippable (h : isSkippable marker line = true) :
    storedLines marker (line :: rest) = storedLines marker rest := by
  simp [storedLines, h]

theorem storedLines_cons_of_executable (h : isSkippable marker line = false) :
    storedLines marker (line :: rest) = uncomment marker (Text.trim line) :: storedLines marker rest := by
  simp [storedLines, h]

/-- Where no definition is open, every line that is not skipped is performed as it reads
without its blanks and its comment. -/
theorem performed?_of_top (hp : m.pending = none) (hs : isSkippable marker line = false) :
    performed? marker line m = some (Shape.ofText (uncomment marker (Text.trim line)), m) := by
  have hclosed : m.closeDefinition = m := by simp [closeDefinition, hp]
  have htop : m.isCollecting = false := by simp [isCollecting, hp]
  rw [performed?, Statement.ofLine_of_executable hs]
  cases isIndented line with
  | true => simp [htop]
  | false => simp [Statement.ofText, hclosed]

theorem isSkippable_of_header
    (h : Statement.ofLine marker (Text.trim line) = .shaped text (.header name params)) :
    isSkippable marker line = false := by
  by_contra hskipped
  rw [Bool.not_eq_false, ← isSkippable_trim] at hskipped
  rcases Statement.ofLine_of_skippable hskipped with hl | ⟨comment, hl⟩
  · simp [hl] at h
  · simp [hl] at h

theorem execute_header (hp : m.pending = none)
    (h : Statement.ofLine config.marker (Text.trim line) = .shaped text (.header name params)) :
    execute config line m = .ok (m.collecting ⟨name, Arguments.params params, []⟩) := by
  have hs := isSkippable_of_header h
  have hshape : Shape.ofText (uncomment config.marker (Text.trim line)) = .header name params := by
    rw [Statement.ofLine_trim hs, Statement.ofText, Statement.shaped.injEq] at h
    exact h.2
  have hperformed := performed?_of_top hp hs
  rw [hshape] at hperformed
  exact executeWith_of_performed hperformed

theorem execute_collecting (hs : isSkippable config.marker line = false) (hi : isIndented line = true) :
    execute config line (m.collecting f) =
      .ok (m.collecting { f with body := f.body ++ [uncomment config.marker (Text.trim line)] }) := by
  have hline := Statement.ofLine_of_executable hs
  rw [if_pos hi] at hline
  simp [execute, executeWith, hline, collecting, isCollecting, collect]

/-- The lines fill the body of the open definition and do nothing else. -/
theorem executeAll_collecting (h : Continues config.marker lines) (m : Machine) (f : Function) :
    executeAll config lines (m.collecting f) =
      .ok (m.collecting { f with body := f.body ++ storedLines config.marker lines }) := by
  induction lines generalizing f with
  | nil => simp [executeAll, storedLines, pure, Except.pure]
  | cons line rest ih =>
    obtain ⟨hline, hrest⟩ := List.forall_mem_cons.mp h
    rw [executeAll_cons]
    cases hs : isSkippable config.marker line with
    | true =>
      rw [execute_of_skippable hs, storedLines_cons_of_skippable hs]
      exact ih hrest f
    | false =>
      have hi : isIndented line = true := hline.resolve_left (by simp [hs])
      have hmore := ih hrest { f with body := f.body ++ [uncomment config.marker (Text.trim line)] }
      rw [List.append_assoc] at hmore
      rw [execute_collecting hs hi, storedLines_cons_of_executable hs]
      exact hmore

theorem executeAll_definition (hp : m.pending = none)
    (h : Statement.ofLine config.marker (Text.trim line) = .shaped text (.header name params))
    (hlines : Continues config.marker lines) :
    executeAll config (line :: lines) m = .ok (m.collecting (defined config.marker name params lines)) := by
  rw [executeAll_cons, execute_header hp h]
  exact executeAll_collecting hlines m _

theorem collecting_closeDefinition (hp : m.pending = none) :
    (m.collecting f).closeDefinition = m.bind f.name (.function f) := by
  simp [closeDefinition, collecting, bind, hp]

/-- A line that is not indented is executed as if the definition had been bound before. -/
theorem execute_after_collecting (hp : m.pending = none) (hs : isSkippable config.marker line = false)
    (hi : isIndented line = false) :
    execute config line (m.collecting f) = execute config line (m.bind f.name (.function f)) := by
  have hline := Statement.ofLine_of_executable hs
  have hbound : (m.bind f.name (.function f)).closeDefinition = m.bind f.name (.function f) := by
    simp [closeDefinition, bind, hp]
  simp [execute, executeWith, hline, hi, Statement.ofText, collecting_closeDefinition hp, hbound]

end SnippetTutor.Machine
