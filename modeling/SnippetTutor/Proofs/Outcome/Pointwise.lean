import Mathlib.Data.List.Forall2
import SnippetTutor.Proofs.Outcome

/-! # Lists of computations

A list of computations succeeds exactly when each of them does, and then it gives one result for
each, in order.
-/
namespace SnippetTutor.Outcome

variable {ε α β : Type} {f : α → Except ε β} {R : β → α → Prop} {xs : List α} {ys : List β}

theorem exists_mapM (h : ∀ x ∈ xs, ∃ y, f x = .ok y ∧ R y x) :
    ∃ ys, xs.mapM f = .ok ys ∧ List.Forall₂ R ys xs := by
  induction xs with
  | nil => exact ⟨[], rfl, .nil⟩
  | cons x rest ih =>
    obtain ⟨y, hy, hyx⟩ := h x List.mem_cons_self
    obtain ⟨ys, hys, hrest⟩ := ih fun z hz => h z (List.mem_cons_of_mem x hz)
    refine ⟨y :: ys, ?_, .cons hyx hrest⟩
    rw [List.mapM_cons]
    exact bind_eq_ok.mpr ⟨y, hy, bind_eq_ok.mpr ⟨ys, hys, rfl⟩⟩

theorem forall₂_of_mapM (h : xs.mapM f = .ok ys) : List.Forall₂ (fun y x => f x = .ok y) ys xs := by
  induction xs generalizing ys with
  | nil =>
    cases h
    exact .nil
  | cons x rest ih =>
    rw [List.mapM_cons] at h
    obtain ⟨y, hy, h⟩ := bind_eq_ok.mp h
    obtain ⟨more, hmore, h⟩ := bind_eq_ok.mp h
    cases h
    exact .cons hy (ih hmore)

theorem mapM_take (h : xs.mapM f = .ok ys) (n : Nat) : (xs.take n).mapM f = .ok (ys.take n) := by
  induction xs generalizing ys n with
  | nil =>
    cases h
    cases n <;> rfl
  | cons x rest ih =>
    rw [List.mapM_cons] at h
    obtain ⟨y, hy, h⟩ := bind_eq_ok.mp h
    obtain ⟨more, hmore, h⟩ := bind_eq_ok.mp h
    cases h
    cases n with
    | zero => rfl
    | succ n =>
      rw [List.take_succ_cons, List.take_succ_cons, List.mapM_cons]
      exact bind_eq_ok.mpr ⟨y, hy, bind_eq_ok.mpr ⟨more.take n, ih hmore n, rfl⟩⟩

theorem exists_mapM_iff : (∃ ys, xs.mapM f = .ok ys) ↔ ∀ x ∈ xs, ∃ y, f x = .ok y := by
  constructor
  · rintro ⟨ys, hys⟩ x hx
    obtain ⟨i, hi, rfl⟩ := List.getElem_of_mem hx
    have hall := forall₂_of_mapM hys
    have hlength : i < ys.length := hall.length_eq ▸ hi
    exact ⟨ys[i], hall.get hlength hi⟩
  · intro h
    obtain ⟨ys, hys, -⟩ := exists_mapM (R := fun _ _ => True)
      fun x hx => (h x hx).imp fun _ hy => ⟨hy, trivial⟩
    exact ⟨ys, hys⟩

end SnippetTutor.Outcome
