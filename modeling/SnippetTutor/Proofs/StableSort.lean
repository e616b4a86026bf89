import Mathlib.Data.List.Lex
import Mathlib.Data.List.Sort
import SnippetTutor.StableSort

/-! # Stable arrangements

A list is arranged by a key when nothing is added or lost, keys never decrease, and items with the same
key stand in their old order. There is only one such list, whichever way it is found, so that sorting
gives the arrangement, and leaves a list alone that is in order already.
-/
namespace SnippetTutor

variable {α β : Type} [LinearOrder β] {key : α → β} {items left right : List α}

/-- The items in the order of their keys, those with the same key in the order that they had. -/
structure StablySorted (key : α → β) (items left : List α) : Prop where
  perm : left.Perm items
  ordered : left.Pairwise fun a b => key a ≤ key b
  stable : ∀ k, (left.filter fun item => key item = k) = items.filter fun item => key item = k

/-- A list that is in order is its own arrangement. -/
theorem StablySorted.self (h : StablySorted key items left) : StablySorted key left left :=
  ⟨.refl left, h.ordered, fun _ => rfl⟩

section Unique

theorem subset_of_filter_key_eq
    (h : ∀ k, (left.filter fun item => key item = k) = right.filter fun item => key item = k) :
    left ⊆ right := by
  intro item hitem
  have hkept : item ∈ left.filter fun other => key other = key item := by simp [hitem]
  rw [h] at hkept
  exact List.mem_of_mem_filter hkept

/-- A list in order is known from its items of each key. -/
theorem eq_of_filter_key_eq (hleft : left.Pairwise fun a b => key a ≤ key b)
    (hright : right.Pairwise fun a b => key a ≤ key b)
    (h : ∀ k, (left.filter fun item => key item = k) = right.filter fun item => key item = k) :
    left = right := by
  induction left generalizing right with
  | nil => exact (List.subset_nil.mp (subset_of_filter_key_eq fun k => (h k).symm)).symm
  | cons a left ih =>
    cases right with
    | nil => exact List.subset_nil.mp (subset_of_filter_key_eq h)
    | cons b right =>
      obtain ⟨ha, hmore⟩ := List.pairwise_cons.mp hleft
      obtain ⟨hb, hothers⟩ := List.pairwise_cons.mp hright
      -- Both lists start with the least key that there is.
      have hleast : ∀ item ∈ a :: left, key a ≤ key item := List.forall_mem_cons.mpr ⟨le_rfl, ha⟩
      have hleast' : ∀ item ∈ b :: right, key b ≤ key item := List.forall_mem_cons.mpr ⟨le_rfl, hb⟩
      have hba : b ∈ a :: left := subset_of_filter_key_eq (fun k => (h k).symm) List.mem_cons_self
      have hab : a ∈ b :: right := subset_of_filter_key_eq h List.mem_cons_self
      have hkey : key a = key b := le_antisymm (hleast b hba) (hleast' a hab)
      have hfirst := h (key b)
      rw [List.filter_cons_of_pos (by simp [hkey]), List.filter_cons_of_pos (by simp)] at hfirst
      obtain ⟨rfl, -⟩ := List.cons.inj hfirst
      have hrest : left = right := by
        refine ih hmore hothers fun k => ?_
        have hk := h k
        by_cases hak : key a = k
        · simpa [hak] using hk
        · simpa [hak] using hk
      rw [hrest]

theorem StablySorted.unique (hleft : StablySorted key items left) (hright : StablySorted key items right) :
    left = right :=
  eq_of_filter_key_eq hleft.ordered hright.ordered fun k => (hleft.stable k).trans (hright.stable k).symm

end Unique

section Sorting

theorem stablySorted_insertionSort (key : α → β) (items : List α) :
    StablySorted key items (items.insertionSort fun a b => key a ≤ key b) := by
  have htotal : Std.Total fun a b : α => key a ≤ key b := ⟨fun a b => le_total (key a) (key b)⟩
  have htrans : IsTrans α fun a b => key a ≤ key b := ⟨fun _ _ _ => le_trans⟩
  have hperm := List.perm_insertionSort (fun a b => key a ≤ key b) items
  refine ⟨hperm, List.pairwise_insertionSort _ items, fun k => ?_⟩
  -- The items of one key are in order as they stand, and so they are not moved against each other.
  have hordered : (items.filter fun item => key item = k).Pairwise fun a b => key a ≤ key b := by
    refine List.pairwise_of_forall_mem_list fun a ha b hb => ?_
    simp only [List.mem_filter, decide_eq_true_eq] at ha hb
    exact (ha.2.trans hb.2.symm).le
  have hkept := (List.sublist_insertionSort hordered List.filter_sublist).filter fun item => key item = k
  rw [List.filter_filter] at hkept
  simp only [Bool.and_self] at hkept
  exact (hkept.eq_of_length (hperm.filter _).length_eq.symm).symm

variable {less : β → β → Bool}

theorem insertStable_eq_orderedInsert (hless : ∀ a b, less a b = true ↔ a < b) (x : α) (items : List α) :
    insertStable (fun a b => less (key a) (key b)) x items = items.orderedInsert (fun a b => key a ≤ key b) x := by
  induction items with
  | nil => rfl
  | cons y rest ih => simp only [insertStable, List.orderedInsert, hless, ih, ← not_lt, ite_not]

theorem stableSort_eq_insertionSort (hless : ∀ a b, less a b = true ↔ a < b) (items : List α) :
    stableSort (fun a b => less (key a) (key b)) items = items.insertionSort fun a b => key a ≤ key b := by
  induction items with
  | nil => rfl
  | cons x rest ih =>
    rw [List.insertionSort_cons, ← ih, ← insertStable_eq_orderedInsert hless]
    rfl

/-- The keys that are kept beside the items play no part but to compare them. -/
theorem stableSortOn_eq_insertionSort (hless : ∀ a b, less a b = true ↔ a < b) (items : List α) :
    stableSortOn key less items = items.insertionSort fun a b => key a ≤ key b := by
  have hpairs : stableSort (fun a b : β × α => less a.1 b.1) (items.map fun item => (key item, item)) = _ :=
    stableSort_eq_insertionSort hless _
  rw [← List.map_insertionSort (fun a b => key a ≤ key b) (fun a b : β × α => a.1 ≤ b.1) _ items
    (fun _ _ _ _ => Iff.rfl)] at hpairs
  rw [stableSortOn, hpairs, List.map_map]
  exact List.map_id _

/-- What is sorted is arranged, and any arrangement is what sorting gives. -/
theorem stablySorted_iff (hless : ∀ a b, less a b = true ↔ a < b) :
    StablySorted key items left ↔ left = stableSortOn key less items := by
  have hsorted := stablySorted_insertionSort key items
  rw [← stableSortOn_eq_insertionSort hless] at hsorted
  constructor
  · exact fun h => h.unique hsorted
  · rintro rfl
    exact hsorted

end Sorting

end SnippetTutor
