/-! # Stable sorting

Items are inserted one by one, from the last to the first, each before the first item
that is not less. Items that are neither less nor greater keep their order.
-/
namespace SnippetTutor

variable {α β : Type}

def insertStable (less : α → α → Bool) (x : α) : List α → List α
  | [] => [x]
  | y :: rest => if less y x then y :: insertStable less x rest else x :: y :: rest

def stableSort (less : α → α → Bool) (items : List α) : List α :=
  items.foldr (insertStable less) []

/-- Sorts by a key that is computed once for each item. -/
def stableSortOn (key : α → β) (less : β → β → Bool) (items : List α) : List α :=
  (stableSort (fun a b => less a.1 b.1) (items.map fun item => (key item, item))).map Prod.snd

theorem insertStable_perm (less : α → α → Bool) (x : α) (items : List α) :
    (insertStable less x items).Perm (x :: items) := by
  induction items with
  | nil => exact .refl _
  | cons y rest ih =>
    unfold insertStable
    split
    · exact (ih.cons y).trans (.swap x y rest)
    · exact .refl _

theorem stableSort_perm (less : α → α → Bool) (items : List α) :
    (stableSort less items).Perm items := by
  induction items with
  | nil => exact .refl _
  | cons x rest ih => exact (insertStable_perm less x _).trans (ih.cons x)

end SnippetTutor
