import SnippetTutor.Proofs.Machine.Scope

/-! # What a line sets

A statement names the variables that it sets, and before it is performed it completes the
definition that is open. All other variables it leaves as they are. Only a call may do more:
where calls write back, it may give new values to variables that its caller has, but it never
adds one.
-/
namespace SnippetTutor

/-- The names that a statement sets. An assignment from a list call also changes the list. -/
def Shape.targets (memory : Memory) : Shape → List Text
  | .assignment name expr => match Machine.listCall? memory expr with
    | some (object, _) => [object, name]
    | none => [name]
  | .method object _ _ => [object]
  | .header _ _ | .print _ | .call _ _ | .unrecognized => []

/-- A name has the value that it had, or it had one and a call may have written back to it. -/
def KeptOrWritten (policy : ScopePolicy) (kind : StatementKind) (before after : Memory) (name : Text) : Prop :=
  Fields.get? after name = Fields.get? before name ∨
    policy = .writeBack ∧ kind = .plainCall ∧ name ∈ Fields.keys before

theorem KeptOrWritten.congr {policy : ScopePolicy} {kind : StatementKind} {before before' after : Memory}
    {name : Text} (h : KeptOrWritten policy kind before after name)
    (hb : Fields.get? before name = Fields.get? before' name) : KeptOrWritten policy kind before' after name := by
  unfold KeptOrWritten at h ⊢
  rw [← Fields.get?_isSome_iff] at h ⊢
  rw [← hb]
  exact h

namespace Machine
open Outcome

/-- The name of the definition that is open. -/
def openName (m : Machine) : List Text := (m.pending.map Function.name).toList

/-- The names that a line sets: that of the definition that it completes, and those of its
statement. A line that is skipped or stored sets none. -/
def lineTargets (marker line : Text) (m : Machine) : List Text :=
  match performed? marker line m with
  | none => []
  | some (shape, start) => m.openName ++ shape.targets start.memory

variable {config : Config} {marker line name target expr object method arguments : Text} {shape : Shape}
  {m n start : Machine} {f : Function}

theorem get?_bind_of_ne (h : name ≠ target) (value : Value) :
    Fields.get? (m.bind target value).memory name = Fields.get? m.memory name :=
  Fields.get?_assign_of_ne m.memory value h

theorem get?_closeDefinition (h : name ∉ m.openName) :
    Fields.get? m.closeDefinition.memory name = Fields.get? m.memory name := by
  unfold closeDefinition
  cases hp : m.pending with
  | none => rfl
  | some f =>
    have hne : name ≠ f.name := by simpa [openName, hp] using h
    exact get?_bind_of_ne hne (.function f)

theorem get?_assign (h : m.assign target expr = .ok n)
    (hname : name ∉ (Shape.assignment target expr).targets m.memory) :
    Fields.get? n.memory name = Fields.get? m.memory name := by
  unfold assign at h
  cases hc : listCall? m.memory expr with
  | none =>
    simp only [Shape.targets, hc, List.mem_singleton] at hname
    simp only [hc] at h
    obtain ⟨value, -, h⟩ := bind_eq_ok.mp h
    cases h
    exact get?_bind_of_ne hname value
  | some parts =>
    obtain ⟨object, items, action, argument⟩ := parts
    simp only [Shape.targets, hc, List.mem_cons, List.not_mem_nil, or_false, not_or] at hname
    simp only [hc] at h
    obtain ⟨changed, -, h⟩ := bind_eq_ok.mp h
    cases h
    rw [get?_bind_of_ne hname.2, get?_bind_of_ne hname.1]

theorem get?_callMethod (h : m.callMethod object method arguments = .ok n) (hname : name ≠ object) :
    Fields.get? n.memory name = Fields.get? m.memory name := by
  unfold callMethod at h
  split at h
  · obtain ⟨changed, -, h⟩ := bind_eq_ok.mp h
    cases h
    exact get?_bind_of_ne hname _
  · cases h
    rfl

/-- A call leaves the memory of its caller, apart from what it writes back. -/
theorem call_memory (h : call config f arguments m = .ok n) :
    n.memory = m.memory ∨ ∃ inner, n.memory = mergeScope config.scope m.memory inner f.params := by
  by_cases ha : m.Admits config
  · rw [call_of_admits ha] at h
    obtain ⟨inner, -, rfl⟩ := map_eq_ok.mp h
    exact Or.inr ⟨inner.memory, rfl⟩
  · left
    cases he : m.exhausted with
    | true =>
      rw [call_of_exhausted he] at h
      cases h
      rfl
    | false =>
      rw [call_of_refused he ha] at h
      cases h
      rfl

theorem call_keptOrWritten (h : call config f arguments m = .ok n) (name : Text) :
    KeptOrWritten config.scope .plainCall m.memory n.memory name := by
  rcases call_memory h with hn | ⟨inner, hn⟩
  · exact Or.inl (by rw [hn])
  · have hkeys := keys_mergeScope config.scope m.memory inner f.params
    by_cases hname : name ∈ Fields.keys m.memory
    · cases hs : config.scope with
      | isolated =>
        rw [hs] at hn
        exact Or.inl (by rw [hn, mergeScope])
      | writeBack => exact Or.inr ⟨rfl, rfl, hname⟩
    · left
      rw [(Fields.get?_eq_none_iff _ _).mpr hname, hn, Fields.get?_eq_none_iff, hkeys]
      exact hname

theorem perform_keptOrWritten (h : perform (call config) shape m = .ok n) (hname : name ∉ shape.targets m.memory) :
    KeptOrWritten config.scope shape.kind m.memory n.memory name := by
  cases shape with
  | header | print | unrecognized =>
    cases h
    exact Or.inl rfl
  | assignment target expr => exact Or.inl (get?_assign h hname)
  | method object method arguments => exact Or.inl (get?_callMethod h (by simpa [Shape.targets] using hname))
  | call target arguments =>
    simp only [perform] at h
    split at h
    · exact call_keptOrWritten h name
    · cases h
      exact Or.inl rfl

/-- A line leaves the names that it does not set, at any depth of calls. -/
theorem execute_keptOrWritten (h : execute config line m = .ok n)
    (hp : performed? config.marker line m = some (shape, start)) (hname : name ∉ lineTargets config.marker line m) :
    KeptOrWritten config.scope shape.kind m.memory n.memory name := by
  simp only [lineTargets, hp, List.mem_append, not_or] at hname
  rw [execute, executeWith_of_performed hp] at h
  have hstart : Fields.get? start.memory name = Fields.get? m.memory name := by
    rcases performed?_machine hp with rfl | rfl
    · rfl
    · exact get?_closeDefinition hname.1
  exact (perform_keptOrWritten h hname.2).congr hstart

theorem execute_memory_of_not_performed (h : execute config line m = .ok n)
    (hp : performed? config.marker line m = none) : n.memory = m.memory := by
  rcases executeWith_of_not_performed hp with hn | ⟨text, -, hn⟩
  · rw [execute, hn] at h
    cases h
    rfl
  · rw [execute, hn] at h
    cases h
    rfl

/-- Statements give no name to two variables. -/
theorem respected_nodup (policy : ScopePolicy) :
    Respected policy fun m n => (Fields.keys m.memory).Nodup → (Fields.keys n.memory).Nodup where
  refl _ := id
  trans hab hbc := fun h => hbc (hab h)
  header _ _ _ := id
  emit _ _ := id
  bind _ _ _ := fun h => Fields.nodup_keys_assign h _ _
  collect _ _ := id
  close m := by
    intro h
    unfold closeDefinition
    split
    · exact h
    · exact Fields.nodup_keys_assign h _ _
  abandon _ := id
  leave {m f values inner} _ := by
    simp only [leave, keys_mergeScope]
    exact id

end Machine

end SnippetTutor
