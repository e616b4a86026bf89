import Mathlib.Data.List.Forall2
import SnippetTutor.Proofs.Literal.ReadBack
import SnippetTutor.Proofs.Value.Document
import SnippetTutor.Proofs.Value.Functions

/-! # Exported values come back

A value that is written as a document and read again is the value that it was, but for the sign of a
zero, as long as it holds no function. A function comes back as a record that is marked as one. The
memory table cannot tell the difference between the two zeros, so that exported variables come back
as the same rows.
That values of any depth return is said for a stack without bounds (`Fault`).
-/
namespace SnippetTutor
open Outcome

namespace Number
variable {x y : Number} {n : Int}

/-- Two numbers that are equal, or both a nan. -/
def Agrees (x y : Number) : Prop := x.equal y = true ∨ x = .nan ∧ y = .nan

theorem equal_self_of_finite (negative : Bool) (rank : Fin finiteRanks) :
    (finite negative rank).equal (finite negative rank) = true := by
  simp [equal]

theorem agrees_refl (x : Number) : x.Agrees x := by
  cases x with
  | nan => exact Or.inr ⟨rfl, rfl⟩
  | infinite negative => exact Or.inl (by simp [equal])
  | finite negative rank => exact Or.inl (equal_self_of_finite negative rank)

theorem whole?_of_rank_zero (negative : Bool) {rank : Fin finiteRanks} (h : rank.val = 0) :
    (finite negative rank).whole? = some 0 := by
  simp [whole?, h, unitsOf_zero]

theorem rank_zero_of_whole? {negative : Bool} {rank : Fin finiteRanks}
    (h : (finite negative rank).whole? = some 0) : rank.val = 0 := by
  simp only [whole?] at h
  split at h
  · next hwhole =>
    by_contra hrank
    have hunits : 0 < unitsOf rank := unitsOf_pos (Nat.pos_of_ne_zero hrank)
    have hquotient : unitsOf rank / unitsPerOne = 0 := by
      have hsigned := Option.some.inj h
      split at hsigned <;> omega
    have hdiv := Nat.div_add_mod (unitsOf rank) unitsPerOne
    rw [hquotient, hwhole, Nat.mul_zero] at hdiv
    omega
  · cases h

/-- The whole number that a number is written as is read as an equal number. -/
theorem exists_ofInt?_of_whole? (h : x.whole? = some n) : ∃ y, ofInt? n = some y ∧ x.Agrees y := by
  cases x with
  | nan | infinite => cases h
  | finite negative rank =>
    by_cases hzero : n = 0
    · subst hzero
      have hrank := rank_zero_of_whole? h
      -- the sign of a zero is lost on the way
      refine ⟨finite false rank, ofInt?_of_whole? (whole?_of_rank_zero false hrank) fun _ => rfl, Or.inl ?_⟩
      simp [equal, hrank]
    · exact ⟨_, ofInt?_of_whole? h fun hn => absurd hn hzero, agrees_refl _⟩

theorem display_of_rank_zero (negative : Bool) {rank : Fin finiteRanks} (h : rank.val = 0) :
    (finite negative rank).display = ['0'] := by
  rw [Value.PlainNumber.display (whole?_of_rank_zero negative h) (by decide)]
  rfl

theorem Agrees.display (h : x.Agrees y) : y.display = x.display := by
  rcases h with hequal | ⟨rfl, rfl⟩
  · cases x with
    | nan => cases hequal
    | infinite a =>
      cases y with
      | infinite b => rw [beq_iff_eq.mp hequal]
      | nan | finite => cases hequal
    | finite a rank =>
      cases y with
      | nan | infinite => cases hequal
      | finite b other =>
        simp only [equal, Bool.and_eq_true, beq_iff_eq, Bool.or_eq_true] at hequal
        obtain ⟨rfl, rfl | hzero⟩ := hequal
        · rfl
        · rw [display_of_rank_zero b hzero, display_of_rank_zero a hzero]
  · rfl

end Number

namespace Value
variable {v w : Value} {xs ys : List Value} {fields others : List (Text × Value)}

/-- Two values of the same build, with the same texts and the same keys in the same order, whose numbers
differ at most in the sign of a zero. -/
inductive Agrees : Value → Value → Prop
  | number {x y : Number} (h : x.Agrees y) : Agrees (.number x) (.number y)
  | text (t : Text) : Agrees (.text t) (.text t)
  | bool (b : Bool) : Agrees (.bool b) (.bool b)
  | function (f : Function) : Agrees (.function f) (.function f)
  | undefined : Agrees .undefined .undefined
  | list {xs ys : List Value} (hlength : xs.length = ys.length)
      (h : ∀ {x y}, (x, y) ∈ xs.zip ys → Agrees x y) : Agrees (.list xs) (.list ys)
  | record {fields others : List (Text × Value)} (hkeys : Fields.keys fields = Fields.keys others)
      (h : ∀ {x y}, (x, y) ∈ (fields.map Prod.snd).zip (others.map Prod.snd) → Agrees x y) :
      Agrees (.record fields) (.record others)

theorem agrees_list (h : List.Forall₂ Agrees xs ys) : Agrees (.list xs) (.list ys) := by
  obtain ⟨hlength, hzip⟩ := List.forall₂_iff_zip.mp h
  exact .list hlength hzip

theorem agrees_record (hkeys : Fields.keys fields = Fields.keys others)
    (h : List.Forall₂ Agrees (fields.map Prod.snd) (others.map Prod.snd)) :
    Agrees (.record fields) (.record others) :=
  .record hkeys (List.forall₂_iff_zip.mp h).2

theorem map_eq_of_zip {α : Type} {f : Value → α} (hlength : xs.length = ys.length)
    (h : ∀ {x y}, (x, y) ∈ xs.zip ys → f y = f x) : ys.map f = xs.map f := by
  have hall : List.Forall₂ (fun x y => f y = f x) xs ys := List.forall₂_iff_zip.mpr ⟨hlength, h⟩
  have hmapped : List.Forall₂ Eq (ys.map f) (xs.map f) :=
    List.forall₂_map_left_iff.mpr (List.forall₂_map_right_iff.mpr hall.flip)
  rwa [List.forall₂_eq_eq_eq] at hmapped

theorem length_values (hkeys : Fields.keys fields = Fields.keys others) :
    (fields.map Prod.snd).length = (others.map Prod.snd).length := by
  have hlength := congrArg List.length hkeys
  simpa [Fields.keys] using hlength

theorem functionsOfItems_eq (items : List Value) : functionsOfItems items = (items.map functions).flatten := by
  induction items with
  | nil => rfl
  | cons item rest ih => rw [functionsOfItems, ih, List.map_cons, List.flatten_cons]

theorem functionsOfFields_eq (fields : List (Text × Value)) :
    functionsOfFields fields = ((fields.map Prod.snd).map functions).flatten := by
  induction fields with
  | nil => rfl
  | cons field rest ih => rw [functionsOfFields, ih, List.map_cons, List.map_cons, List.flatten_cons]

/-- What is made of each field from its key and something that its value shares with the value that it
agrees with. -/
theorem map_fields_eq_of_zip {β γ : Type} {f : Value → β} (g : Text → β → γ)
    (hkeys : Fields.keys fields = Fields.keys others)
    (h : ∀ {x y}, (x, y) ∈ (fields.map Prod.snd).zip (others.map Prod.snd) → f y = f x) :
    others.map (fun field => g field.1 (f field.2)) = fields.map fun field => g field.1 (f field.2) := by
  have hzip : ∀ fs : List (Text × Value), (fs.map fun field => g field.1 (f field.2)) =
      List.zipWith g (Fields.keys fs) ((fs.map Prod.snd).map f) := by
    intro fs
    rw [Fields.keys, List.map_map, List.zipWith_map, List.zipWith_self]
    rfl
  rw [hzip, hzip, hkeys, map_eq_of_zip (length_values hkeys) h]

/-- Values that agree hold the same functions. -/
theorem Agrees.functions_eq (h : v.Agrees w) : w.functions = v.functions := by
  induction h with
  | list hlength _ ih =>
    rw [functions, functions, functionsOfItems_eq, functionsOfItems_eq, map_eq_of_zip hlength ih]
  | record hkeys _ ih =>
    rw [functions, functions, functionsOfFields_eq, functionsOfFields_eq, map_eq_of_zip (length_values hkeys) ih]
  | number | text | bool | function | undefined => rfl

theorem Agrees.kind_eq (h : v.Agrees w) : w.kind = v.kind := by
  cases h <;> rfl

theorem Agrees.displayItem_eq (h : v.Agrees w) : w.displayItem = v.displayItem := by
  induction h with
  | number h => exact h.display
  | list hlength _ ih =>
    rw [displayItem_list, displayItem_list, displayItems_eq, displayItems_eq, map_eq_of_zip hlength ih]
  | record hkeys _ ih =>
    rw [displayItem_record, displayItem_record, displayFields_eq, displayFields_eq,
      map_fields_eq_of_zip (fun key shown => '\'' :: (key ++ ['\'']) ++ (": ".toList ++ shown)) hkeys ih]
  | text | bool | function | undefined => rfl

/-- Only a text is displayed in another way inside a list or record. -/
theorem Agrees.display_eq (h : v.Agrees w) : w.display = v.display := by
  have hitem := h.displayItem_eq
  cases h with
  | text => rfl
  | number | bool | function | undefined | list | record => exact hitem

mutual

theorem agrees_of_ofJson (v : Value) {read : Value} (hv : v.functions = []) (h : ofJson v.toJson = .ok read) :
    v.Agrees read := by
  cases v with
  | number x =>
    rw [toJson] at h
    cases hwhole : x.whole? with
    | none =>
      rw [hwhole] at h
      cases h
      exact .number x.agrees_refl
    | some n =>
      obtain ⟨y, hy, hxy⟩ := Number.exists_ofInt?_of_whole? hwhole
      simp only [hwhole, ofJson, ofWhole, hy] at h
      cases h
      exact .number hxy
  | list items =>
    obtain ⟨found, hfound, h⟩ := bind_eq_ok.mp h
    cases h
    exact agrees_list (agrees_of_ofJsonItems items hv hfound)
  | record fields =>
    obtain ⟨found, hfound, h⟩ := bind_eq_ok.mp h
    cases h
    obtain ⟨hkeys, hvalues⟩ := agrees_of_ofJsonFields fields hv hfound
    exact agrees_record hkeys hvalues
  | function f => cases hv
  | text t =>
    cases h
    exact .text t
  | bool b =>
    cases h
    exact .bool b
  | undefined =>
    cases h
    exact .undefined

theorem agrees_of_ofJsonItems (items : List Value) {read : List Value} (hv : functionsOfItems items = [])
    (h : ofJsonItems (toJsonItems items) = .ok read) : List.Forall₂ Agrees items read := by
  cases items with
  | nil =>
    cases h
    exact .nil
  | cons item rest =>
    obtain ⟨value, hvalue, h⟩ := bind_eq_ok.mp h
    obtain ⟨more, hmore, h⟩ := bind_eq_ok.mp h
    cases h
    obtain ⟨hitem, hrest⟩ := List.append_eq_nil_iff.mp hv
    exact .cons (agrees_of_ofJson item hitem hvalue) (agrees_of_ofJsonItems rest hrest hmore)

theorem agrees_of_ofJsonFields (fields : List (Text × Value)) {read : List (Text × Value)}
    (hv : functionsOfFields fields = []) (h : ofJsonFields (toJsonFields fields) = .ok read) :
    Fields.keys fields = Fields.keys read ∧
      List.Forall₂ Agrees (fields.map Prod.snd) (read.map Prod.snd) := by
  match fields with
  | [] =>
    cases h
    exact ⟨rfl, .nil⟩
  | (key, value) :: rest =>
    obtain ⟨found, hfound, h⟩ := bind_eq_ok.mp h
    obtain ⟨more, hmore, h⟩ := bind_eq_ok.mp h
    cases h
    obtain ⟨hvalue, hrest⟩ := List.append_eq_nil_iff.mp hv
    obtain ⟨hkeys, hvalues⟩ := agrees_of_ofJsonFields rest hrest hmore
    exact ⟨congrArg (key :: ·) hkeys, .cons (agrees_of_ofJson value hvalue hfound) hvalues⟩

end

/-- The document of a value can be read, and what is read of it agrees with the value unless functions
are in it. -/
theorem exists_ofJson_agrees_iff (v : Value) :
    ∃ w, ofJson v.toJson = .ok w ∧ (v.Agrees w ↔ v.functions = []) := by
  have hread : ∃ w, ofJson v.toJson = .ok w := by
    rw [exists_ok_iff .numberTooLarge, ofJson_eq_error]
    exact not_overflows_toJson v
  obtain ⟨w, hw⟩ := hread
  refine ⟨w, hw, fun hagrees => ?_, fun hv => agrees_of_ofJson v hv hw⟩
  -- a document holds no functions, and values that agree hold the same ones
  rw [← hagrees.functions_eq]
  exact functions_ofJson v.toJson hw

end Value

theorem Memory.table_eq {memory read : Memory} (hkeys : Fields.keys memory = Fields.keys read)
    (h : List.Forall₂ Value.Agrees (memory.map Prod.snd) (read.map Prod.snd)) : read.table = memory.table := by
  refine Value.map_fields_eq_of_zip (f := fun v => (v.display, v.kind))
    (fun name (shown : Text × Value.Kind) => (⟨name, shown.1, shown.2⟩ : Memory.Row)) hkeys fun hxy => ?_
  have hagrees := (List.forall₂_iff_zip.mp h).2 hxy
  rw [hagrees.display_eq, hagrees.kind_eq]

/-- A value is read back from its document as a value that agrees with it exactly if no function occurs in
it. It is then displayed in the same way, by itself and inside a list, and has the same kind. A memory
without functions is read back with the same rows in the same order. -/
theorem exported_values_return :
    (∀ v : Value, ∃ w, Value.ofJson v.toJson = .ok w ∧ (v.Agrees w ↔ v.functions = []) ∧
      (v.functions = [] → w.display = v.display ∧ w.displayItem = v.displayItem ∧ w.kind = v.kind)) ∧
    ∀ memory : Memory, memory.functions = [] →
      ∃ read : Memory, Value.ofJsonFields (Value.toJsonFields memory) = .ok read ∧ read.table = memory.table := by
  constructor
  · intro v
    obtain ⟨w, hw, hagrees⟩ := Value.exists_ofJson_agrees_iff v
    refine ⟨w, hw, hagrees, fun hv => ?_⟩
    have h := hagrees.mpr hv
    exact ⟨h.display_eq, h.displayItem_eq, h.kind_eq⟩
  · intro memory hmemory
    obtain ⟨read, hread⟩ := Value.exists_ofJsonFields memory
    obtain ⟨hkeys, hvalues⟩ := Value.agrees_of_ofJsonFields memory hmemory hread
    exact ⟨read, hread, Memory.table_eq hkeys hvalues⟩

/-- A negative zero, an infinity and a nan, in a list, next to a record whose keys are in no order. -/
def medley : Value :=
  .list [.number (.finite true ⟨0, by decide⟩), .number (.infinite true), .number .nan, .undefined,
    .record [("b".toList, .bool true), ("a".toList, .list [.text "1".toList, .number (.nearest true 5 2)])]]

theorem exported_values_return_medley : medley.functions = [] ∧
    (∃ w, Value.ofJson medley.toJson = .ok w ∧ medley.Agrees w ∧ w ≠ medley ∧
      w.display = "[0, -inf, nan, None, \x7b'b': True, 'a': ['1', -2.5]\x7d]".toList) ∧
    Memory.functions [("m".toList, medley)] = [] ∧
    ∃ read : Memory, Value.ofJsonFields (Value.toJsonFields [("m".toList, medley)]) = .ok read ∧
      read.table = Memory.table [("m".toList, medley)] := by
  obtain ⟨hvalue, hmemory⟩ := exported_values_return
  have hv : medley.functions = [] := by decide
  have hm : Memory.functions [("m".toList, medley)] = [] := by decide
  obtain ⟨w, hw, hagrees, hsame⟩ := hvalue medley
  refine ⟨hv, ⟨w, hw, hagrees.mpr hv, ?_, (hsame hv).1.trans (by decide +kernel)⟩, hm, hmemory _ hm⟩
  rintro rfl
  have hchanged : (Value.ofJson medley.toJson).toOption ≠ some medley := by decide +kernel
  exact hchanged (by rw [hw]; rfl)

end SnippetTutor
