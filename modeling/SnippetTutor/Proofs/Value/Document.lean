import SnippetTutor.Proofs.Literal.Fault

/-! # Documents made of values

A whole number in a document may be beyond the finite numbers, and then the document cannot be
read as values. The documents that values are written as hold no such number, because each whole
number in them was a finite number before.
-/
namespace SnippetTutor
open Outcome

theorem Json.wholesOfItems_texts (ts : List Text) : wholesOfItems (ts.map .text) = [] := by
  induction ts with
  | nil => rfl
  | cons t rest ih => simpa [wholesOfItems, wholes] using ih

theorem Function.wholes_toJson (f : Function) : f.toJson.wholes = [] := by
  simp [Function.toJson, Json.obj, Json.wholes, Json.wholesOfFields, Json.wholesOfItems_texts]

namespace Value
open Json

theorem not_overflows_nil : ¬ Overflows [] := by
  simp [Overflows]

mutual

theorem not_overflows_toJson (v : Value) : ¬ Overflows v.toJson.wholes := by
  cases v with
  | number x =>
    rw [toJson]
    cases hw : x.whole? with
    | none => exact not_overflows_nil
    | some n =>
      have hlt := Number.whole?_natAbs_lt hw
      simpa [wholes, Overflows] using hlt
  | list items => exact not_overflows_toJsonItems items
  | record fields => exact not_overflows_toJsonFields fields
  | function f =>
    rw [toJson, f.wholes_toJson]
    exact not_overflows_nil
  | text | bool | undefined => exact not_overflows_nil

theorem not_overflows_toJsonItems (items : List Value) : ¬ Overflows (wholesOfItems (toJsonItems items)) := by
  cases items with
  | nil => exact not_overflows_nil
  | cons item rest =>
    rw [toJsonItems, wholesOfItems, overflows_append]
    exact not_or.mpr ⟨not_overflows_toJson item, not_overflows_toJsonItems rest⟩

theorem not_overflows_toJsonFields (fields : List (Text × Value)) :
    ¬ Overflows (wholesOfFields (toJsonFields fields)) := by
  match fields with
  | [] => exact not_overflows_nil
  | (key, value) :: rest =>
    rw [toJsonFields, wholesOfFields, overflows_append]
    exact not_or.mpr ⟨not_overflows_toJson value, not_overflows_toJsonFields rest⟩

end

/-- What a memory is written as can be read again. -/
theorem exists_ofJsonFields (fields : List (Text × Value)) : ∃ read, ofJsonFields (toJsonFields fields) = .ok read := by
  rw [exists_ok_iff .numberTooLarge, ofJsonFields_eq_error]
  exact not_overflows_toJsonFields fields

end Value

end SnippetTutor
