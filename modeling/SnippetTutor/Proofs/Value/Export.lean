import SnippetTutor.Proofs.Json.Keys
import SnippetTutor.Proofs.Value.Hereditary

/-! # Values as they are exported

The document of a value has those of its numbers that are not whole, and all others are written as
whole numbers. No object in it has a key twice, because records come from the reader of literals.
-/
namespace SnippetTutor
open Outcome Json

namespace Value

mutual

/-- The numbers in a value, at any depth. A function has none. -/
def numbers : Value → List Number
  | .number x => [x]
  | .list items => numbersOfItems items
  | .record fields => numbersOfFields fields
  | .text _ | .bool _ | .function _ | .undefined => []

def numbersOfItems : List Value → List Number
  | [] => []
  | item :: rest => numbers item ++ numbersOfItems rest

def numbersOfFields : List (Text × Value) → List Number
  | [] => []
  | (_, value) :: rest => numbers value ++ numbersOfFields rest

end

end Value

theorem Json.numbersOfItems_texts (ts : List Text) : numbersOfItems (ts.map .text) = [] := by
  induction ts with
  | nil => rfl
  | cons t rest ih => simpa [numbersOfItems, numbers] using ih

theorem Json.keyedItems_texts (ts : List Text) : KeyedItems (ts.map .text) := by
  rw [keyedItems_iff, List.forall_mem_map]
  exact fun _ _ => trivial

namespace Function

theorem numbers_toJson (f : Function) : f.toJson.numbers = [] := by
  simp [toJson, obj, Json.numbers, Json.numbersOfFields, numbersOfItems_texts]

theorem keyed_toJson (f : Function) : f.toJson.Keyed := by
  refine keyed_obj (by simp) ?_
  simp [Keyed, keyedItems_texts]

end Function

namespace Value

mutual

/-- The numbers that are not whole are written as they are. -/
theorem numbers_toJson (v : Value) : v.toJson.numbers = v.numbers.filter fun x => x.whole?.isNone := by
  cases v with
  | number x =>
    rw [toJson, numbers]
    cases hw : x.whole? with
    | none => simp [Json.numbers, hw]
    | some n => simp [Json.numbers, hw]
  | list items => exact numbers_toJsonItems items
  | record fields => exact numbers_toJsonFields fields
  | function f => exact f.numbers_toJson
  | text | bool | undefined => rfl

theorem numbers_toJsonItems (items : List Value) :
    Json.numbersOfItems (toJsonItems items) = (numbersOfItems items).filter fun x => x.whole?.isNone := by
  cases items with
  | nil => rfl
  | cons item rest =>
    rw [toJsonItems, Json.numbersOfItems, numbersOfItems, List.filter_append, numbers_toJson item,
      numbers_toJsonItems rest]

theorem numbers_toJsonFields (fields : List (Text × Value)) :
    Json.numbersOfFields (toJsonFields fields) = (numbersOfFields fields).filter fun x => x.whole?.isNone := by
  match fields with
  | [] => rfl
  | (key, value) :: rest =>
    rw [toJsonFields, Json.numbersOfFields, numbersOfFields, List.filter_append, numbers_toJson value,
      numbers_toJsonFields rest]

end

theorem keys_toJsonFields (fields : List (Text × Value)) :
    Fields.keys (toJsonFields fields) = Fields.keys fields := by
  induction fields with
  | nil => rfl
  | cons field rest ih => simpa [toJsonFields, Fields.keys] using ih

theorem keyed_toJsonItems {items : List Value} :
    KeyedItems (toJsonItems items) ↔ ∀ item ∈ items, item.toJson.Keyed := by
  induction items with
  | nil => simp [toJsonItems, KeyedItems]
  | cons item rest ih => simp [toJsonItems, KeyedItems, ih]

theorem keyed_toJsonFields {fields : List (Text × Value)} :
    KeyedFields (toJsonFields fields) ↔ ∀ field ∈ fields, field.2.toJson.Keyed := by
  induction fields with
  | nil => simp [toJsonFields, KeyedFields]
  | cons field rest ih => simp [toJsonFields, KeyedFields, ih]

theorem keyed_number (x : Number) : (number x).toJson.Keyed := by
  rw [toJson]
  split <;> trivial

mutual

/-- What is read out of a document goes into a document with the same keys. -/
theorem keyed_of_ofJson (j : Json) {v : Value} (hj : j.Keyed) (h : ofJson j = .ok v) : v.toJson.Keyed := by
  cases j with
  | int n =>
    simp only [ofJson, ofWhole] at h
    cases hn : Number.ofInt? n with
    | none =>
      rw [hn] at h
      cases h
    | some x =>
      rw [hn] at h
      cases h
      exact keyed_number x
  | number x =>
    cases h
    exact keyed_number x
  | array items =>
    obtain ⟨values, hvalues, h⟩ := bind_eq_ok.mp h
    cases h
    exact keyed_of_ofJsonItems items hj hvalues
  | object fields =>
    obtain ⟨values, hvalues, h⟩ := bind_eq_ok.mp h
    cases h
    obtain ⟨hkeys, hfields⟩ := keyed_of_ofJsonFields fields hj.2 hvalues
    refine ⟨?_, hfields⟩
    rw [hkeys]
    exact hj.1
  | null | bool | text =>
    cases h
    trivial

theorem keyed_of_ofJsonItems (items : List Json) {values : List Value} (hitems : KeyedItems items)
    (h : ofJsonItems items = .ok values) : KeyedItems (toJsonItems values) := by
  cases items with
  | nil =>
    cases h
    trivial
  | cons item rest =>
    obtain ⟨value, hvalue, h⟩ := bind_eq_ok.mp h
    obtain ⟨more, hmore, h⟩ := bind_eq_ok.mp h
    cases h
    exact ⟨keyed_of_ofJson item hitems.1 hvalue, keyed_of_ofJsonItems rest hitems.2 hmore⟩

theorem keyed_of_ofJsonFields (fields : List (Text × Json)) {values : List (Text × Value)}
    (hfields : KeyedFields fields) (h : ofJsonFields fields = .ok values) :
    Fields.keys (toJsonFields values) = Fields.keys fields ∧ KeyedFields (toJsonFields values) := by
  match fields with
  | [] =>
    cases h
    exact ⟨rfl, trivial⟩
  | (key, document) :: rest =>
    obtain ⟨value, hvalue, h⟩ := bind_eq_ok.mp h
    obtain ⟨more, hmore, h⟩ := bind_eq_ok.mp h
    cases h
    obtain ⟨hkeys, hmore⟩ := keyed_of_ofJsonFields rest hfields.2 hmore
    exact ⟨congrArg (key :: ·) hkeys, keyed_of_ofJson document hfields.1 hvalue, hmore⟩

end

theorem keyed_decoded? {token : Text} {documents : List Json} (h : Literal.decoded? token = some documents) :
    KeyedItems documents := by
  unfold Literal.decoded? at h
  split at h
  · cases h
  · split at h
    · next hread =>
      cases h
      exact keyed_read? hread
    · cases h

/-- The property that the document of a value has no key twice. -/
theorem hereditary_keyed : Hereditary fun v => v.toJson.Keyed where
  number := keyed_number
  text _ := trivial
  bool _ := trivial
  undefined := trivial
  list := keyed_toJsonItems
  decoded {token items} h := by
    rw [← keyed_toJsonItems]
    rw [Literal.readList_eq] at h
    cases hdecoded : Literal.decoded? token with
    | none =>
      rw [hdecoded] at h
      cases h
      trivial
    | some documents =>
      rw [hdecoded] at h
      exact keyed_of_ofJsonItems documents (keyed_decoded? hdecoded) h

end Value

end SnippetTutor
