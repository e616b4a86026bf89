import Mathlib.Data.List.TakeWhile
import SnippetTutor.Statement.Basic

/-! # How a shape is found

Each of the five readers makes shapes of its own kind, so that the kind of a shape tells which reader
has found it. The names in a shape are made of word characters.
-/
namespace SnippetTutor.Shape

variable {t name tail object action arguments written : Text} {shape : Shape}

theorem not_mem_of_nameAt? {d : Char} (hstart : Text.isNameStart d = false) (hword : Text.isWordChar d = false)
    (h : nameAt? t = some (name, tail)) : d ∉ name := by
  cases t with
  | nil => cases h
  | cons c rest =>
    rw [nameAt?] at h
    split at h
    · next hc =>
      cases h
      intro hd
      rcases List.mem_cons.mp hd with rfl | hd
      · exact Bool.false_ne_true (hstart.symm.trans hc)
      · have hwordd : Text.isWordChar d = true := List.mem_takeWhile_imp hd
        exact Bool.false_ne_true (hword.symm.trans hwordd)
    · cases h

theorem not_mem_of_methodParts? {d : Char} (hstart : Text.isNameStart d = false) (hword : Text.isWordChar d = false)
    (h : methodParts? t = some (object, action, written)) : d ∉ object ∧ d ∉ action := by
  obtain ⟨⟨first, tail⟩, hfirst, h⟩ := Option.bind_eq_some_iff.mp h
  dsimp only at h
  split at h
  · obtain ⟨⟨second, rest⟩, hsecond, h⟩ := Option.bind_eq_some_iff.mp h
    obtain ⟨enclosed, -, h⟩ := Option.map_eq_some_iff.mp h
    cases h
    exact ⟨not_mem_of_nameAt? hstart hword hfirst, not_mem_of_nameAt? hstart hword hsecond⟩
  · cases h

section Kinds

theorem kind_of_header? (h : header? t = some shape) : shape.kind = .functionHeader := by
  obtain ⟨rest, -, h⟩ := Option.bind_eq_some_iff.mp h
  split at h
  · obtain ⟨⟨name, tail⟩, -, h⟩ := Option.bind_eq_some_iff.mp h
    dsimp only at h
    split at h
    · obtain ⟨params, -, rfl⟩ := Option.map_eq_some_iff.mp h
      rfl
    · cases h
  · cases h

theorem kind_of_assignment? (h : assignment? t = some shape) : shape.kind = .assignment := by
  obtain ⟨⟨name, tail⟩, -, h⟩ := Option.bind_eq_some_iff.mp h
  dsimp only at h
  split at h
  · obtain ⟨expr, -, rfl⟩ := Option.map_eq_some_iff.mp h
    rfl
  · cases h

theorem kind_of_print? (h : print? t = some shape) : shape.kind = .printCall := by
  obtain ⟨rest, -, h⟩ := Option.bind_eq_some_iff.mp h
  obtain ⟨argument, -, rfl⟩ := Option.map_eq_some_iff.mp h
  rfl

theorem kind_of_call? (h : call? t = some shape) : shape.kind = .plainCall := by
  obtain ⟨⟨name, tail⟩, -, h⟩ := Option.bind_eq_some_iff.mp h
  obtain ⟨argument, -, rfl⟩ := Option.map_eq_some_iff.mp h
  rfl

end Kinds

/-- The shape of a text is what one of the readers has found, unless none has found any. -/
theorem ofText_cases (t : Text) : header? t = some (ofText t) ∨ assignment? t = some (ofText t) ∨
    print? t = some (ofText t) ∨ method? t = some (ofText t) ∨ call? t = some (ofText t) ∨
      ofText t = .unrecognized := by
  unfold ofText
  cases header? t with
  | some shape => exact Or.inl rfl
  | none =>
    cases assignment? t with
    | some shape => exact Or.inr (Or.inl rfl)
    | none =>
      cases print? t with
      | some shape => exact Or.inr (Or.inr (Or.inl rfl))
      | none =>
        cases method? t with
        | some shape => exact Or.inr (Or.inr (Or.inr (Or.inl rfl)))
        | none =>
          cases call? t with
          | some shape => exact Or.inr (Or.inr (Or.inr (Or.inr (Or.inl rfl))))
          | none => exact Or.inr (Or.inr (Or.inr (Or.inr (Or.inr rfl))))

theorem methodParts?_of_ofText (h : ofText t = .method object action arguments) :
    ∃ written, methodParts? t = some (object, action, written) ∧ arguments = Text.trim written := by
  have hcases := ofText_cases t
  rw [h] at hcases
  rcases hcases with hfound | hfound | hfound | hfound | hfound | hfound
  · cases kind_of_header? hfound
  · cases kind_of_assignment? hfound
  · cases kind_of_print? hfound
  · obtain ⟨⟨first, second, written⟩, hparts, hsame⟩ := Option.map_eq_some_iff.mp hfound
    cases hsame
    exact ⟨written, hparts, rfl⟩
  · cases kind_of_call? hfound
  · cases hfound

end SnippetTutor.Shape
