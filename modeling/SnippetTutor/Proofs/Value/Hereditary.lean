import SnippetTutor.Machine.Execute
import SnippetTutor.Proofs.Literal.Fault

/-! # Properties of all values of a memory

Statements pass values on, put them into lists and take them out again. A property that a
list shares with its items, and that all literals have, is therefore a property of whatever
is resolved, stored in a list or bound to a name, if the values of the memory have it.
-/
namespace SnippetTutor
open Outcome

/-- A list has the property exactly if its items have it, and all that a token stands for
without the memory has it. -/
structure Value.Hereditary (P : Value → Prop) : Prop where
  number : ∀ x, P (.number x)
  text : ∀ t, P (.text t)
  bool : ∀ b, P (.bool b)
  undefined : P .undefined
  list : ∀ {items}, P (.list items) ↔ ∀ item ∈ items, P item
  decoded : ∀ {token items}, Literal.readList token = .ok items → ∀ item ∈ items, P item

namespace Memory

/-- Every value of the memory has the property. -/
def Each (P : Value → Prop) (memory : Memory) : Prop := ∀ field ∈ memory, P field.2

variable {P : Value → Prop} {memory : Memory} {name : Text} {value : Value}

theorem Each.get? (h : memory.Each P) (hvalue : Fields.get? memory name = some value) : P value :=
  h _ (Fields.mem_of_get? hvalue)

theorem Each.list? (hP : Value.Hereditary P) (h : memory.Each P) {items : List Value}
    (hitems : memory.list? name = some items) : ∀ item ∈ items, P item := by
  obtain ⟨value, hvalue, hlist⟩ := Option.bind_eq_some_iff.mp hitems
  cases value with
  | list found =>
    cases hlist
    exact hP.list.mp (h.get? hvalue)
  | number | text | bool | record | function | undefined => cases hlist

theorem Each.function? (h : memory.Each P) {f : Function} (hf : memory.function? name = some f) :
    P (.function f) := by
  obtain ⟨value, hvalue, hfunction⟩ := Option.bind_eq_some_iff.mp hf
  cases value with
  | function found =>
    cases hfunction
    exact h.get? hvalue
  | number | text | bool | record | list | undefined => cases hfunction

theorem Each.bind (h : memory.Each P) (hvalue : P value) : (memory.bind name value).Each P := by
  intro field hfield
  rcases Fields.mem_assign hfield with rfl | hold
  · exact hvalue
  · exact h field hold

theorem Each.update (h : memory.Each P) {new : Memory} (hnew : new.Each P) :
    Memory.Each P (Fields.update memory new) := by
  intro field hfield
  rcases Fields.mem_update hfield with hfresh | hold
  · exact hnew field hfresh
  · exact h field hold

theorem Each.mergeScope {policy : ScopePolicy} {params : List Text} {inner : Memory}
    (h : memory.Each P) (hinner : inner.Each P) :
    Memory.Each P (mergeScope policy memory inner params) := by
  cases policy with
  | isolated => exact h
  | writeBack =>
    intro field hfield
    obtain ⟨old, hold, rfl⟩ := List.mem_map.mp hfield
    split
    · exact h old hold
    · cases hvalue : Fields.get? inner old.1 with
      | none => exact h old hold
      | some value => exact hinner.get? hvalue

theorem each_paramBindings (hP : Value.Hereditary P) {params : List Text} {values : List Value}
    (h : ∀ value ∈ values, P value) : Memory.Each P (paramBindings params values) := by
  unfold Each
  induction params generalizing values with
  | nil => simp [paramBindings]
  | cons param params ih =>
    cases values with
    | nil =>
      simp only [paramBindings, List.forall_mem_cons]
      exact ⟨hP.undefined, ih (by simp)⟩
    | cons value values =>
      simp only [paramBindings, List.forall_mem_cons] at h ⊢
      exact ⟨h.1, ih h.2⟩

end Memory

namespace Value.Hereditary

variable {P : Value → Prop} (hP : Hereditary P) {memory : Memory} {value : Value}
include hP

theorem keyword {t : Text} (h : Literal.keyword? t = some value) : P value := by
  unfold Literal.keyword? at h
  repeat' split at h
  all_goals cases h
  · exact hP.bool true
  · exact hP.bool false
  · exact hP.undefined

theorem scalar {t : Text} (h : Literal.scalar? t = some value) : P value := by
  cases hquoted : Literal.unquote? t with
  | some content =>
    obtain rfl : Value.text content = value := by simpa [Literal.scalar?, hquoted] using h
    exact hP.text content
  | none =>
    cases hnumber : Literal.number? t with
    | some x =>
      obtain rfl : Value.number x = value := by simpa [Literal.scalar?, hquoted, hnumber] using h
      exact hP.number x
    | none => exact hP.keyword (t := t) (by simpa [Literal.scalar?, hquoted, hnumber] using h)

theorem coerce {token : Text} (h : memory.Each P) (hvalue : Literal.coerce memory token = .ok value) :
    P value := by
  unfold Literal.coerce at hvalue
  simp only at hvalue
  cases hscalar : Literal.scalar? (Text.trim token) with
  | some found =>
    rw [hscalar] at hvalue
    cases hvalue
    exact hP.scalar hscalar
  | none =>
    rw [hscalar] at hvalue
    simp only at hvalue
    split at hvalue
    · obtain ⟨items, hitems, rfl⟩ := map_eq_ok.mp hvalue
      exact hP.list.mpr (hP.decoded hitems)
    · cases hvalue
      cases hfound : Fields.get? memory (Text.trim token) with
      | none => exact hP.text _
      | some found => exact h.get? hfound

end Value.Hereditary

namespace ListAction

theorem mem_sorted {items : List Value} {item : Value} (h : item ∈ sorted items) : item ∈ items := by
  obtain ⟨keyed, hkeyed, rfl⟩ := List.mem_map.mp h
  have hmem := (stableSort_perm _ _).mem_iff.mp hkeyed
  obtain ⟨found, hfound, rfl⟩ := List.mem_map.mp hmem
  exact hfound

theorem mem_without {target : Value} {items : List Value} {item : Value}
    (h : item ∈ without target items) : item ∈ items := by
  induction items with
  | nil => cases h
  | cons first rest ih =>
    unfold without at h
    split at h
    · exact List.mem_cons_of_mem first h
    · rcases List.mem_cons.mp h with rfl | h
      · exact List.mem_cons_self
      · exact List.mem_cons_of_mem first (ih h)

theorem apply_each {P : Value → Prop} (hP : Value.Hereditary P) {memory : Memory} {action : ListAction}
    {items changed : List Value} {argument : Text} (h : memory.Each P) (hitems : ∀ item ∈ items, P item)
    (hchanged : action.apply items argument memory = .ok changed) : ∀ item ∈ changed, P item := by
  cases action with
  | append =>
    simp only [apply, appendTo] at hchanged
    split at hchanged
    · cases hchanged
      exact hitems
    · obtain ⟨value, hvalue, hchanged⟩ := bind_eq_ok.mp hchanged
      cases hchanged
      rw [List.forall_mem_append]
      exact ⟨hitems, by simpa using hP.coerce h hvalue⟩
  | pop =>
    cases hchanged
    exact fun item hitem => hitems item (List.dropLast_subset items hitem)
  | sort =>
    cases hchanged
    exact fun item hitem => hitems item (mem_sorted hitem)
  | remove =>
    obtain ⟨target, -, hchanged⟩ := bind_eq_ok.mp hchanged
    cases hchanged
    exact fun item hitem => hitems item (mem_without hitem)

end ListAction

end SnippetTutor
