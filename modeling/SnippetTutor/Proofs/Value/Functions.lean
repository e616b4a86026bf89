import SnippetTutor.Proofs.Value.Hereditary

/-! # The functions that a value holds

Statements pass values on, and only the header of a definition makes a function. Whatever
is resolved, stored in a list or bound to a name therefore holds no functions but those
that the memory held before.
-/
namespace SnippetTutor
open Outcome

namespace Value

mutual

/-- The functions that a value holds, those in lists and records included. -/
def functions : Value → List Function
  | .function f => [f]
  | .list items => functionsOfItems items
  | .record fields => functionsOfFields fields
  | .number _ | .text _ | .bool _ | .undefined => []

def functionsOfItems : List Value → List Function
  | [] => []
  | item :: rest => functions item ++ functionsOfItems rest

def functionsOfFields : List (Text × Value) → List Function
  | [] => []
  | (_, value) :: rest => functions value ++ functionsOfFields rest

end

theorem mem_functionsOfItems {f : Function} {items : List Value} :
    f ∈ functionsOfItems items ↔ ∃ item ∈ items, f ∈ item.functions := by
  induction items with
  | nil => simp [functionsOfItems]
  | cons item rest ih => simp [functionsOfItems, ih]

theorem mem_functionsOfFields {f : Function} {fields : List (Text × Value)} :
    f ∈ functionsOfFields fields ↔ ∃ field ∈ fields, f ∈ field.2.functions := by
  induction fields with
  | nil => simp [functionsOfFields]
  | cons field rest ih =>
    obtain ⟨name, value⟩ := field
    simp [functionsOfFields, ih]

mutual

/-- A document holds no functions. -/
theorem functions_ofJson (j : Json) {value : Value} (h : ofJson j = .ok value) :
    value.functions = [] := by
  cases j with
  | int n =>
    simp only [ofJson, ofWhole] at h
    cases hn : Number.ofInt? n with
    | none =>
      rw [hn] at h
      cases h
    | some x =>
      rw [hn] at h
      cases h
      rfl
  | array items =>
    obtain ⟨values, hvalues, h⟩ := bind_eq_ok.mp h
    cases h
    exact functions_ofJsonItems items hvalues
  | object fields =>
    obtain ⟨values, hvalues, h⟩ := bind_eq_ok.mp h
    cases h
    exact functions_ofJsonFields fields hvalues
  | null | bool | number | text =>
    cases h
    rfl

theorem functions_ofJsonItems (items : List Json) {values : List Value}
    (h : ofJsonItems items = .ok values) : functionsOfItems values = [] := by
  cases items with
  | nil =>
    cases h
    rfl
  | cons item rest =>
    obtain ⟨value, hvalue, h⟩ := bind_eq_ok.mp h
    obtain ⟨more, hmore, h⟩ := bind_eq_ok.mp h
    cases h
    rw [functionsOfItems, functions_ofJson item hvalue, functions_ofJsonItems rest hmore,
      List.append_nil]

theorem functions_ofJsonFields (fields : List (Text × Json)) {values : List (Text × Value)}
    (h : ofJsonFields fields = .ok values) : functionsOfFields values = [] := by
  cases fields with
  | nil =>
    cases h
    rfl
  | cons field rest =>
    obtain ⟨name, document⟩ := field
    obtain ⟨value, hvalue, h⟩ := bind_eq_ok.mp h
    obtain ⟨more, hmore, h⟩ := bind_eq_ok.mp h
    cases h
    rw [functionsOfFields, functions_ofJson document hvalue, functions_ofJsonFields rest hmore,
      List.append_nil]

end

theorem functions_readList {token : Text} {items : List Value} (h : Literal.readList token = .ok items) :
    functionsOfItems items = [] := by
  rw [Literal.readList_eq] at h
  cases hdecoded : Literal.decoded? token with
  | none =>
    rw [hdecoded] at h
    cases h
    rfl
  | some documents =>
    rw [hdecoded] at h
    exact functions_ofJsonItems documents h

/-- Every function that the value holds has the property. -/
def HoldsOnly (Q : Function → Prop) (value : Value) : Prop := ∀ f ∈ value.functions, Q f

variable {Q : Function → Prop}

theorem holdsOnly_list {items : List Value} :
    (list items).HoldsOnly Q ↔ ∀ item ∈ items, item.HoldsOnly Q := by
  simp only [HoldsOnly, functions, mem_functionsOfItems]
  constructor
  · intro h item hitem f hf
    exact h f ⟨item, hitem, hf⟩
  · rintro h f ⟨item, hitem, hf⟩
    exact h item hitem f hf

theorem holdsOnly_function {f : Function} : (function f).HoldsOnly Q ↔ Q f := by
  simp [HoldsOnly, functions]

/-- A literal holds no functions, and a list holds those that its items hold. -/
theorem hereditary_holdsOnly (Q : Function → Prop) : Hereditary (HoldsOnly Q) where
  number _ := nofun
  text _ := nofun
  bool _ := nofun
  undefined := nofun
  list := holdsOnly_list
  decoded {token items} h := by
    intro item hitem f hf
    have hmem : f ∈ functionsOfItems items := mem_functionsOfItems.mpr ⟨item, hitem, hf⟩
    rw [functions_readList h] at hmem
    cases hmem

end Value

namespace Memory

def functions (memory : Memory) : List Function := Value.functionsOfFields memory

def HoldsOnly (Q : Function → Prop) (memory : Memory) : Prop := ∀ f ∈ memory.functions, Q f

variable {Q : Function → Prop} {memory : Memory}

theorem holdsOnly_iff_each : memory.HoldsOnly Q ↔ memory.Each (Value.HoldsOnly Q) := by
  simp only [HoldsOnly, Each, Value.HoldsOnly, functions, Value.mem_functionsOfFields]
  constructor
  · intro h field hfield f hf
    exact h f ⟨field, hfield, hf⟩
  · rintro h f ⟨field, hfield, hf⟩
    exact h field hfield f hf

end Memory

end SnippetTutor
