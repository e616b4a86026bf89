import SnippetTutor.Proofs.Machine.Hereditary
import SnippetTutor.Proofs.Value.Functions

/-! # The functions of a machine

A body is stored without the blanks before its lines. A line of a body is therefore never
stored in another body: what is defined while a call runs has no body at all, and no
function with a longer body than those that were there before can come of a call.
-/
namespace SnippetTutor
open Outcome

/-- No line of the body is indented. -/
def Function.Flush (f : Function) : Prop := ∀ line ∈ f.body, isIndented line = false

namespace Machine

/-- The functions that the memory holds, and the one that is being defined. -/
def functions (m : Machine) : List Function := m.memory.functions ++ m.pending.toList

def longestBody (m : Machine) : Nat := (m.functions.map fun f => f.body.length).max?.getD 0

def HoldsOnly (Q : Function → Prop) (m : Machine) : Prop := ∀ f ∈ m.functions, Q f

variable {config : Config} {marker line : Text} {lines : List Text} {Q : Function → Prop} {m n : Machine}
  {c : Invocation}

theorem length_le_longestBody {f : Function} (h : f ∈ m.functions) : f.body.length ≤ m.longestBody :=
  List.le_max?_getD_of_mem (List.mem_map_of_mem h)

theorem holdsOnly_iff_each : m.HoldsOnly Q ↔ m.Each (Value.HoldsOnly Q) := by
  simp only [HoldsOnly, functions, List.mem_append, Option.mem_toList, or_imp, forall_and]
  constructor
  · rintro ⟨hmemory, hpending⟩
    exact ⟨Memory.holdsOnly_iff_each.mp hmemory, fun f hf => Value.holdsOnly_function.mpr (hpending f hf)⟩
  · rintro ⟨hmemory, hpending⟩
    exact ⟨Memory.holdsOnly_iff_each.mpr hmemory, fun f hf => Value.holdsOnly_function.mp (hpending f hf)⟩

theorem stores_flush (marker line : Text) : Stores Function.Flush marker line := by
  intro text htext f hf next hnext
  rcases List.mem_append.mp hnext with hold | hnew
  · exact hf next hold
  · rw [List.mem_singleton.mp hnew]
    exact Statement.not_isIndented_text htext

theorem stores_of_not_isIndented (h : isIndented line = false) : Stores Q marker line := by
  intro text htext
  rw [Statement.isIndented_of_bodyLine htext] at h
  cases h

namespace HoldsOnly

theorem invocation (h : m.HoldsOnly Q) (hc : invocation? marker line m = some c) :
    Q c.function ∧ c.caller.HoldsOnly Q := by
  obtain ⟨hfunction, hcaller⟩ := (holdsOnly_iff_each.mp h).invocation hc
  exact ⟨Value.holdsOnly_function.mp hfunction, holdsOnly_iff_each.mpr hcaller⟩

theorem entered (h : m.HoldsOnly Q) (hc : invocation? marker line m = some c) {values : List Value}
    (hvalues : (Arguments.split c.arguments).mapM (Literal.coerce c.caller.memory) = .ok values) :
    (c.caller.enter c.function values).HoldsOnly Q := by
  rw [holdsOnly_iff_each] at h ⊢
  exact h.entered (Value.hereditary_holdsOnly Q) hc hvalues

theorem runBody (h : m.HoldsOnly Q)
    (hlines : ∀ line ∈ lines, ∀ k k', k.depth = m.depth → k.HoldsOnly Q →
      Machine.execute config line k = .ok k' → k'.HoldsOnly Q)
    (hx : Machine.runBody (Machine.execute config) lines m = .ok n) : n.HoldsOnly Q := by
  simp only [holdsOnly_iff_each] at h hlines ⊢
  exact h.runBody hlines hx

/-- A statement keeps the property of all functions if storing its line does, for the lines
of a body are flush and never stored. -/
theorem execute (h : m.HoldsOnly Q) (hempty : ∀ name params, Q ⟨name, params, []⟩)
    (hflush : ∀ f, Q f → f.Flush) (hstores : Stores Q config.marker line)
    (hx : execute config line m = .ok n) : n.HoldsOnly Q := by
  have hsame : (fun f => Value.HoldsOnly Q (.function f)) = Q := funext fun _ => propext Value.holdsOnly_function
  rw [holdsOnly_iff_each] at h ⊢
  apply h.execute (Value.hereditary_holdsOnly Q) _ _ _ hx
  · exact fun name params => Value.holdsOnly_function.mpr (hempty name params)
  · intro f hf line hline
    exact stores_of_not_isIndented (hflush f (Value.holdsOnly_function.mp hf) line hline)
  · rwa [hsame]

end HoldsOnly

/-- Every function that ever comes up has a flush body. -/
theorem Reachable.flush (h : Reachable config m) : m.HoldsOnly Function.Flush := by
  obtain ⟨lines, hlines⟩ := h
  have hinitial : initial.HoldsOnly Function.Flush := by
    intro f hf
    cases hf
  apply executeAll_keeps _ hinitial hlines
  intro line _ k k' hk hx
  apply hk.execute _ (fun _ hf => hf) (stores_flush config.marker line) hx
  intro name params line hline
  cases hline

end Machine

end SnippetTutor
