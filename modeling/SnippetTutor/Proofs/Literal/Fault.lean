import SnippetTutor.Literal
import SnippetTutor.Proofs.Number.Range
import SnippetTutor.Proofs.Outcome
import SnippetTutor.Proofs.Statement.Indentation

/-! # Literals that cannot be read

A bracketed literal that the decoder refuses is an empty list. One that it accepts is
turned into numbers of double precision afterwards, and there is no number for a whole
number beyond their range. That is the only fault that reading a token can meet.
-/
namespace SnippetTutor
open Outcome

instance : Subsingleton Fault where
  allEq a b := by
    cases a
    cases b
    rfl

namespace Json

mutual

/-- The whole numbers that a document holds, at any depth. -/
def wholes : Json → List Int
  | .int n => [n]
  | .array items => wholesOfItems items
  | .object fields => wholesOfFields fields
  | .null | .bool _ | .number _ | .text _ => []

def wholesOfItems : List Json → List Int
  | [] => []
  | item :: rest => wholes item ++ wholesOfItems rest

def wholesOfFields : List (Text × Json) → List Int
  | [] => []
  | (_, value) :: rest => wholes value ++ wholesOfFields rest

end

/-- Some of the whole numbers are beyond the range of the finite numbers. -/
def Overflows (wholes : List Int) : Prop := ∃ n ∈ wholes, Number.overflow ≤ n.natAbs

theorem overflows_append {a b : List Int} : Overflows (a ++ b) ↔ Overflows a ∨ Overflows b := by
  simp only [Overflows, List.mem_append, or_and_right, exists_or]

end Json

namespace Value
open Json

/-- A second computation counts only where the first one succeeds, but as there is one
fault only, the two fail together exactly if either of them fails. -/
theorem pair_eq_error {α β γ : Type} {x : Except Fault α} {y : Except Fault β} {f : α → β → γ}
    {fault : Fault} : (do .ok (f (← x) (← y)) : Except Fault γ) = .error fault ↔
      x = .error fault ∨ y = .error fault := by
  cases x with
  | error e => simp [bind, Except.bind, Subsingleton.elim e fault]
  | ok a =>
    cases y with
    | error e => simp [bind, Except.bind]
    | ok b => simp [bind, Except.bind]

theorem ofWhole_eq_error {fault : Fault} {n : Int} :
    ofWhole n = .error fault ↔ Number.overflow ≤ n.natAbs := by
  rw [← Number.ofInt?_eq_none_iff]
  unfold ofWhole
  cases Number.ofInt? n with
  | none => simp [Subsingleton.elim fault .numberTooLarge]
  | some x => simp

mutual

theorem ofJson_eq_error {fault : Fault} (j : Json) :
    ofJson j = .error fault ↔ Overflows j.wholes := by
  cases j with
  | int n =>
    simp [ofJson, ofWhole_eq_error, wholes, Overflows]
  | array items =>
    simp [ofJson, bind_eq_error, ofJsonItems_eq_error items, wholes]
  | object fields =>
    simp [ofJson, bind_eq_error, ofJsonFields_eq_error fields, wholes]
  | null | bool | number | text => simp [ofJson, wholes, Overflows]

theorem ofJsonItems_eq_error {fault : Fault} (items : List Json) :
    ofJsonItems items = .error fault ↔ Overflows (wholesOfItems items) := by
  cases items with
  | nil => simp [ofJsonItems, wholesOfItems, Overflows]
  | cons item rest =>
    rw [ofJsonItems, pair_eq_error, ofJson_eq_error item, ofJsonItems_eq_error rest,
      wholesOfItems, overflows_append]

theorem ofJsonFields_eq_error {fault : Fault} (fields : List (Text × Json)) :
    ofJsonFields fields = .error fault ↔ Overflows (wholesOfFields fields) := by
  cases fields with
  | nil => simp [ofJsonFields, wholesOfFields, Overflows]
  | cons field rest =>
    obtain ⟨key, value⟩ := field
    rw [ofJsonFields, pair_eq_error, ofJson_eq_error value, ofJsonFields_eq_error rest,
      wholesOfFields, overflows_append]

end

end Value

namespace Literal

/-- The list that the decoder reads from a token, if it accepts the token and finds one. -/
def decoded? (token : Text) : Option (List Json) :=
  if maxNesting < nesting token then none
  else match Json.read? decoderLimits (Text.replaceChar '\'' '"' token) with
    | some (.array items) => some items
    | _ => none

/-- Whatever the decoder refuses is an empty list. -/
theorem readList_eq (token : Text) : readList token = (decoded? token).elim (.ok []) Value.ofJsonItems := by
  unfold readList decoded?
  by_cases hn : maxNesting < nesting token
  · rw [if_pos hn, if_pos hn]
    rfl
  · rw [if_neg hn, if_neg hn]
    cases Json.read? decoderLimits (Text.replaceChar '\'' '"' token) with
    | none => rfl
    | some document => cases document <;> rfl

/-- The token is decoded as a list, and the list holds a whole number, at any depth,
that is beyond the range of the finite numbers. -/
def Oversized (token : Text) : Prop :=
  ∃ items, decoded? token = some items ∧ Json.Overflows (Json.wholesOfItems items)

instance (token : Text) : Decidable (Oversized token) :=
  match h : decoded? token with
  | none => isFalse (by simp [Oversized, h])
  | some items => decidable_of_iff (∃ n ∈ Json.wholesOfItems items, Number.overflow ≤ n.natAbs)
      (by simp [Oversized, Json.Overflows, h])

theorem readList_eq_error {token : Text} {fault : Fault} :
    readList token = .error fault ↔ Oversized token := by
  unfold Oversized
  rw [readList_eq]
  cases decoded? token with
  | none => simp
  | some items => simp [Value.ofJsonItems_eq_error]

/-- Nothing that starts with a bracket is read before the lists are. -/
theorem scalar?_of_bracket {t : Text} (h : t.head? = some '[') : scalar? t = none := by
  cases t with
  | nil => cases h
  | cons c rest =>
    cases h
    obtain ⟨tail, htail⟩ := Text.trim_cons (c := '[') (by decide) rest
    have hunquote : unquote? ('[' :: rest) = none := by
      simp only [unquote?, htail]
      rw [if_neg (fun hq => absurd hq.1 (by decide))]
    have hnumber : number? ('[' :: rest) = none := by
      simp only [number?, htail, Number.ofToken?]
      rfl
    have hkeyword : keyword? ('[' :: rest) = none := by
      simp [keyword?]
    simp [scalar?, hunquote, hnumber, hkeyword]

/-- The token is written as a list, and the list is oversized. -/
def Faulty (token : Text) : Prop :=
  (Text.trim token).head? = some '[' ∧ Oversized (Text.trim token)

instance (token : Text) : Decidable (Faulty token) := inferInstanceAs (Decidable (_ ∧ _))

/-- Whether a token can be resolved does not depend on the memory. -/
theorem coerce_eq_error {memory : Memory} {token : Text} {fault : Fault} :
    coerce memory token = .error fault ↔ Faulty token := by
  unfold coerce Faulty
  simp only
  by_cases hb : (Text.trim token).head? = some '['
  · rw [scalar?_of_bracket hb, if_pos hb]
    simp [hb, map_eq_error, readList_eq_error]
  · rw [if_neg hb]
    cases scalar? (Text.trim token) <;> simp [hb]

end Literal

end SnippetTutor
