import Mathlib.Data.Multiset.ZeroCons
import SnippetTutor.Proofs.Machine.Fault
import SnippetTutor.Proofs.Value.Sameness

/-! # Removing an item from a list

The first item that the target removes is dropped, and the rest of the list stays. A target that is
neither a list nor a record removes what is the same, its kind included. A list or a record is compared
by the equality of a snippet, which does not tell kinds apart below the top: it also removes what only
looks like it, if it holds a boolean, a zero, a one or a nan.
That a removal has a result is said for a stack without bounds (`Fault`).
-/
namespace SnippetTutor
open Outcome

section Drops
variable {α : Type} {p q : α → Prop} {items left before after before' after' : List α} {item item' : α}

/-- The list without its first item that has the property, or as it is if there is none. -/
def DropsFirst (p : α → Prop) (items left : List α) : Prop :=
  (∃ before item after, items = before ++ item :: after ∧ (∀ other ∈ before, ¬ p other) ∧ p item ∧
    left = before ++ after) ∨ (∀ item ∈ items, ¬ p item) ∧ left = items

/-- What is dropped is decided by what is left. -/
theorem eq_of_dropped (hsplit : before ++ item :: after = before' ++ item' :: after')
    (hleft : before ++ after = before' ++ after') : item = item' := by
  have hperm : (item :: (before ++ after)).Perm (item' :: (before ++ after)) := by
    calc (item :: (before ++ after)).Perm (before ++ item :: after) := List.perm_middle.symm
      _ = before' ++ item' :: after' := hsplit
      List.Perm _ (item' :: (before' ++ after')) := List.perm_middle
      _ = item' :: (before ++ after) := by rw [hleft]
  have hcons : item ::ₘ (↑(before ++ after) : Multiset α) = item' ::ₘ ↑(before ++ after) :=
    Multiset.coe_eq_coe.mpr hperm
  exact (Multiset.cons_inj_left _).mp hcons

/-- Of two places in a list one comes first, unless they are the same. -/
theorem eq_or_before (hsplit : before ++ item :: after = before' ++ item' :: after') :
    item = item' ∨ item ∈ before' ∨ item' ∈ before := by
  rcases List.append_eq_append_iff.mp hsplit with ⟨more, rfl, hrest⟩ | ⟨more, rfl, hrest⟩
  · cases more with
    | nil => exact Or.inl (List.cons.inj hrest).1
    | cons c more => exact Or.inr (Or.inl (by simp [(List.cons.inj hrest).1]))
  · cases more with
    | nil => exact Or.inl (List.cons.inj hrest).1.symm
    | cons c more => exact Or.inr (Or.inr (by simp [(List.cons.inj hrest).1]))

theorem DropsFirst.congr (hpq : ∀ item ∈ items, p item ↔ q item) (h : DropsFirst p items left) :
    DropsFirst q items left := by
  rcases h with ⟨before, item, after, rfl, hbefore, hitem, rfl⟩ | ⟨hnone, rfl⟩
  · simp only [List.forall_mem_append, List.forall_mem_cons] at hpq
    exact Or.inl ⟨before, item, after, rfl, fun other hother => mt (hpq.1 other hother).mpr (hbefore other hother),
      hpq.2.1.mp hitem, rfl⟩
  · exact Or.inr ⟨fun item hitem => mt (hpq item hitem).mpr (hnone item hitem), rfl⟩

theorem dropsFirst_iff_of_dropped (hbefore : ∀ other ∈ before, ¬ q other) :
    DropsFirst q (before ++ item :: after) (before ++ after) ↔ q item := by
  constructor
  · rintro (⟨before', item', after', hsplit, -, hq, hleft⟩ | ⟨-, hleft⟩)
    · rwa [eq_of_dropped hsplit hleft]
    · have hlength := congrArg List.length hleft
      simp at hlength
  · exact fun hq => Or.inl ⟨before, item, after, rfl, hbefore, hq, rfl⟩

/-- A list that has dropped its first item with a property has dropped its first with a stronger one
exactly if no item that has the weaker one alone comes first. -/
theorem DropsFirst.stronger_iff (hqp : ∀ item, q item → p item) (h : DropsFirst p items left) :
    DropsFirst q items left ↔
      ∀ before item after, items = before ++ item :: after → p item → ¬ q item → ∃ earlier ∈ before, q earlier := by
  rcases h with ⟨before, item, after, rfl, hbefore, hitem, rfl⟩ | ⟨hnone, rfl⟩
  · rw [dropsFirst_iff_of_dropped fun other hother => mt (hqp other) (hbefore other hother)]
    constructor
    · intro hq before' item' after' hsplit hp hnot
      rcases eq_or_before hsplit with rfl | hearlier | hlater
      · exact absurd hq hnot
      · exact ⟨item, hearlier, hq⟩
      · exact absurd hp (hbefore item' hlater)
    · intro h
      by_contra hnot
      obtain ⟨earlier, hearlier, hq⟩ := h before item after rfl hitem hnot
      exact hbefore earlier hearlier (hqp earlier hq)
  · refine iff_of_true (Or.inr ⟨fun item hitem => mt (hqp item) (hnone item hitem), rfl⟩) ?_
    rintro before item after rfl hp
    exact absurd hp (hnone item (by simp))

end Drops

namespace Value
variable {target item : Value}

/-- The item only looks like the target: kinds are not told apart inside of lists and records. -/
def Mistaken (target item : Value) : Prop :=
  target.isCompound = true ∧ Matches AlikeLeaf item target ∧ ¬ Same item target

theorem removedBy_of_isCompound (h : target.isCompound = true) : removedBy target item = alike item target := by
  cases target with
  | list | record => cases item <;> simp [removedBy, alike]
  | number | text | bool | function | undefined => cases h

theorem removedBy_of_not_isCompound (h : target.isCompound = false) :
    removedBy target item = true ↔ item.isCompound = false ∧ SameLeaf item target := by
  cases target with
  | list | record => cases h
  | number | text | bool | function | undefined => cases item <;> simp [removedBy, alike, isCompound, SameLeaf]

theorem same_of_not_isCompound (h : target.isCompound = false) :
    Same item target ↔ item.isCompound = false ∧ SameLeaf item target := by
  constructor
  · intro hsame
    cases hsame with
    | leaf hitem _ hleaf => exact ⟨hitem, hleaf⟩
    | list | record => cases h
  · exact fun hsame => .leaf hsame.1 h hsame.2

/-- A target removes what is the same, and what is mistaken for it. -/
theorem removedBy_iff (htarget : target.Keyed) (hitem : item.Keyed) :
    removedBy target item = true ↔ Same item target ∨ Mistaken target item := by
  cases hcompound : target.isCompound with
  | false =>
    rw [removedBy_of_not_isCompound hcompound, same_of_not_isCompound hcompound, Mistaken, hcompound]
    simp
  | true =>
    rw [removedBy_of_isCompound hcompound, alike_iff hitem htarget]
    constructor
    · exact fun h => or_iff_not_imp_left.mpr fun hsame => ⟨hcompound, h, hsame⟩
    · rintro (hsame | ⟨-, halike, -⟩)
      · exact hsame.alike
      · exact halike

theorem exists_mistaken_iff (htarget : target.Keyed) :
    (∃ item, item.Keyed ∧ Mistaken target item) ↔ target.isCompound = true ∧ ∃ u, Occurs u target ∧ Hazy u := by
  rw [← exists_alike_not_same_iff htarget]
  constructor
  · rintro ⟨item, hitem, hcompound, hmistaken⟩
    exact ⟨hcompound, item, hitem, hmistaken⟩
  · rintro ⟨hcompound, item, hitem, hmistaken⟩
    exact ⟨item, hitem, hcompound, hmistaken⟩

end Value

namespace ListAction
open Value
variable {target : Value} {items : List Value}

theorem without_eq_eraseP (target : Value) (items : List Value) :
    without target items = items.eraseP (target.removedBy ·) := by
  induction items with
  | nil => rfl
  | cons item rest ih => rw [without, List.eraseP_cons, ih, Bool.cond_eq_ite]

theorem dropsFirst_without (target : Value) (items : List Value) :
    DropsFirst (fun item => target.removedBy item = true) items (without target items) := by
  rw [without_eq_eraseP]
  by_cases h : ∃ item ∈ items, target.removedBy item = true
  · obtain ⟨item, hitem, hremoved⟩ := h
    obtain ⟨first, before, after, hbefore, hfirst, hsplit, hleft⟩ := List.exists_of_eraseP hitem hremoved
    exact Or.inl ⟨before, first, after, hsplit, hbefore, hfirst, hleft⟩
  · have hnone : ∀ item ∈ items, ¬ target.removedBy item = true := fun item hitem hremoved => h ⟨item, hitem, hremoved⟩
    exact Or.inr ⟨hnone, List.eraseP_of_forall_not hnone⟩

/-- Removing fails only if the target cannot be resolved. Otherwise the first item is dropped that is the
same as the target, with the same kinds throughout, or is mistaken for it, and the rest keeps its order;
without such an item nothing changes. This drops the first item that is the same unless one that is
mistaken comes before it. Only a list or a record can be mistaken, and one that holds a boolean, a zero, a
one or a nan always can. -/
theorem remove_drops_first_same_iff {memory : Memory} (hmemory : memory.Each Keyed) {items : List Value}
    (hitems : ∀ item ∈ items, item.Keyed) (token : Text) :
    (Literal.Faulty token ∧ ListAction.remove.apply items token memory = .error .numberTooLarge) ∨
    ∃ target left, Literal.coerce memory token = .ok target ∧
      ListAction.remove.apply items token memory = .ok left ∧
      DropsFirst (fun item => Same item target ∨ Mistaken target item) items left ∧
      (DropsFirst (fun item => Same item target) items left ↔
        ∀ before item after, items = before ++ item :: after → Mistaken target item →
          ∃ earlier ∈ before, Same earlier target) ∧
      ((∃ item, item.Keyed ∧ Mistaken target item) ↔ target.isCompound = true ∧ ∃ u, Occurs u target ∧ Hazy u) := by
  rcases ok_or_error (Literal.coerce memory token) with ⟨target, htarget⟩ | ⟨fault, hfault⟩
  · have hkeyed : target.Keyed := hereditary_keyed.coerce hmemory htarget
    have hdrops : DropsFirst (fun item => Same item target ∨ Mistaken target item) items (without target items) :=
      (dropsFirst_without target items).congr fun item hitem => removedBy_iff hkeyed (hitems item hitem)
    refine Or.inr ⟨target, without target items, htarget, ?_, hdrops, ?_, exists_mistaken_iff hkeyed⟩
    · rw [apply, htarget]
      rfl
    · rw [hdrops.stronger_iff fun _ => Or.inl]
      refine forall₄_congr fun before item after hsplit => ?_
      exact ⟨fun h hmistaken => h (Or.inr hmistaken) hmistaken.2.2,
        fun h hremoved hsame => h (hremoved.resolve_left hsame)⟩
  · refine Or.inl ⟨Literal.coerce_eq_error.mp hfault, ?_⟩
    cases fault
    rw [apply, hfault]
    rfl

/-- Two lists with a record in them, whose fields are in a different order. -/
def meant : Value := .list [.record [("a".toList, .bool true), ("b".toList, .text "x".toList)]]

def reordered : Value := .list [.record [("b".toList, .text "x".toList), ("a".toList, .bool true)]]

/-- Each of the two fields has its like under the same key. -/
theorem same_reordered : Same reordered meant := by
  refine matches_list_iff.mpr (.cons (matches_record_iff.mpr ⟨by decide, fun {key x y} hx hy => ?_⟩) .nil)
  simp only [List.mem_cons, List.not_mem_nil, or_false, Prod.mk.injEq] at hx hy
  obtain ⟨rfl, rfl⟩ | ⟨rfl, rfl⟩ := hx
  · obtain ⟨hkey, -⟩ | ⟨-, rfl⟩ := hy
    · exact absurd hkey (by decide)
    · exact .leaf rfl rfl rfl
  · obtain ⟨-, rfl⟩ | ⟨hkey, -⟩ := hy
    · exact .leaf rfl rfl rfl
    · exact absurd hkey (by decide)

/-- The list that is meant is removed, and the boolean before it stays. -/
theorem remove_drops_first_same_iff_reordered :
    Literal.coerce [] "[\x7b'a': true, 'b': 'x'\x7d]".toList = .ok meant ∧
    ListAction.remove.apply [.bool true, reordered] "[\x7b'a': true, 'b': 'x'\x7d]".toList [] = .ok [.bool true] ∧
    DropsFirst (fun item => Same item meant) [.bool true, reordered] [.bool true] := by
  have hcoerce : Literal.coerce [] "[\x7b'a': true, 'b': 'x'\x7d]".toList = .ok meant :=
    eq_ok_of_toOption (by decide +kernel)
  have hremove : ListAction.remove.apply [.bool true, reordered] "[\x7b'a': true, 'b': 'x'\x7d]".toList [] =
      .ok [.bool true] := eq_ok_of_toOption (by decide +kernel)
  have hrecord : reordered.Keyed := by
    refine keyed_list.mpr (List.forall_mem_singleton.mpr (keyed_record.mpr ⟨by decide, fun field hfield => ?_⟩))
    rcases List.mem_pair.mp hfield with rfl | rfl <;> exact keyed_of_not_isCompound rfl
  have hkeyed : ∀ item ∈ [.bool true, reordered], item.Keyed :=
    List.forall_mem_cons.mpr ⟨keyed_of_not_isCompound rfl, List.forall_mem_singleton.mpr hrecord⟩
  have hnone : Memory.Each Keyed [] := List.forall_mem_nil _
  rcases remove_drops_first_same_iff hnone hkeyed "[\x7b'a': true, 'b': 'x'\x7d]".toList with
    ⟨-, herror⟩ | ⟨target, left, htarget, hleft, -, hfirst, -⟩
  · rw [hremove] at herror
    cases herror
  · rw [hcoerce, Except.ok.injEq] at htarget
    rw [hremove, Except.ok.injEq] at hleft
    subst htarget hleft
    refine ⟨hcoerce, hremove, hfirst.mpr fun before item after hsplit hmistaken => ?_⟩
    have hitem : item ∈ [.bool true, reordered] := by simp [hsplit]
    rcases List.mem_pair.mp hitem with rfl | rfl
    · cases hmistaken.2.1.isCompound_eq
    · exact absurd same_reordered hmistaken.2.2

/-- The list that is removed holds a number, and the list that was meant a boolean. -/
theorem remove_mistakes_number_for_bool :
    Literal.coerce [] "[true]".toList = .ok (.list [.bool true]) ∧
    ListAction.remove.apply [.list [.number .one], .list [.bool true]] "[true]".toList [] =
      .ok [.list [.bool true]] ∧
    ¬ DropsFirst (fun item => Same item (.list [.bool true])) [.list [.number .one], .list [.bool true]]
      [.list [.bool true]] := by
  have hcoerce : Literal.coerce [] "[true]".toList = .ok (.list [.bool true]) := eq_ok_of_toOption (by decide +kernel)
  have hremove : ListAction.remove.apply [.list [.number .one], .list [.bool true]] "[true]".toList [] =
      .ok [.list [.bool true]] := eq_ok_of_toOption (by decide +kernel)
  refine ⟨hcoerce, hremove, ?_⟩
  have hother : ¬ Same (.list [.number .one]) (.list [.bool true]) := by
    rw [Same, matches_list_iff]
    rintro (_ | ⟨hfirst, -⟩)
    cases hfirst with
    | leaf _ _ h => exact h
  have hfirst : DropsFirst (fun item => Same item (.list [.bool true]))
      ([] ++ .list [.number .one] :: [.list [.bool true]]) ([] ++ [.list [.bool true]]) ↔
        Same (.list [.number .one]) (.list [.bool true]) := dropsFirst_iff_of_dropped (List.forall_mem_nil _)
  exact hfirst.not.mpr hother

end ListAction

end SnippetTutor
