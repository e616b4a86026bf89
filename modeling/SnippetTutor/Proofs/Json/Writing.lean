import Mathlib.Data.List.Nodup
import SnippetTutor.Json.Writer
import SnippetTutor.Proofs.Json.Grammar
import SnippetTutor.Proofs.Number.Notation
import SnippetTutor.Proofs.Text.Split

/-! # What is written is a document

Each character of a string is escaped as its UTF-16 units, which the grammar takes together again.
A document whose objects have no key twice is written as a text that stands for it. The text needs
the names of numbers that are not finite exactly if the document holds such a number.
-/
namespace SnippetTutor

namespace Text

/-- The digits that a number has in base sixteen are read as digits of that number. -/
theorem exists_values_toDigits (n : Nat) : ∃ values : List Nat,
    (Nat.toDigits 16 n).map hexDigit? = values.map some ∧ numberOf 16 values = n := by
  induction n using Nat.strongRecOn with
  | ind n ih =>
    have hdigit : ∀ d < 16, hexDigit? d.digitChar = some d := by decide
    by_cases hlt : n < 16
    · exact ⟨[n], by simp [Nat.toDigits_of_lt_base hlt, hdigit n hlt], by simp [numberOf]⟩
    · obtain ⟨values, hvalues, hnumber⟩ := ih (n / 16) (by omega)
      refine ⟨values ++ [n % 16], ?_, ?_⟩
      · rw [Nat.toDigits_of_base_le (by decide) (by omega), List.map_append, hvalues, List.map_append]
        simp [hdigit (n % 16) (Nat.mod_lt n (by decide))]
      · have hlast : numberOf 16 (values ++ [n % 16]) = 16 * numberOf 16 values + n % 16 := by simp [numberOf]
        rw [hlast, hnumber, Nat.div_add_mod]

theorem numberOf_zeros_cons (base k : Nat) (values : List Nat) :
    numberOf base (List.replicate k 0 ++ values) = numberOf base values := by
  induction k with
  | zero => rfl
  | succ k ih => simpa [List.replicate_succ, numberOf] using ih

theorem exists_values_hexDigits {n : Nat} (h : n < 0x10000) : ∃ values : List Nat,
    (hexDigits 4 n).map hexDigit? = values.map some ∧ values.length = 4 ∧ numberOf 16 values = n := by
  obtain ⟨values, hvalues, hnumber⟩ := exists_values_toDigits n
  have hlength : (Nat.toDigits 16 n).length ≤ 4 := (Nat.length_toDigits_le_iff (by decide) (by decide)).mpr h
  have hsame : (Nat.toDigits 16 n).length = values.length := by simpa using congrArg List.length hvalues
  refine ⟨List.replicate (4 - (Nat.toDigits 16 n).length) 0 ++ values, ?_, ?_, ?_⟩
  · have hzero : hexDigit? '0' = some 0 := by decide
    simp [hexDigits, hvalues, hzero]
  · simp only [List.length_append, List.length_replicate]
    omega
  · rw [numberOf_zeros_cons, hnumber]

end Text

namespace Json

/-- The UTF-16 units of a character. -/
def units (c : Char) : List Nat :=
  if c.toNat < 0x10000 then [c.toNat]
  else [0xd800 + (c.toNat - 0x10000) / 0x400, 0xdc00 + (c.toNat - 0x10000) % 0x400]

theorem not_surrogate (c : Char) : isHighSurrogate c.toNat = false ∧ isLowSurrogate c.toNat = false := by
  have hvalid := c.valid
  simp only [UInt32.isValidChar, Nat.isValidChar, UInt32.toNat] at hvalid
  simp only [isHighSurrogate, isLowSurrogate, Char.toNat, UInt32.toNat, Bool.and_eq_false_iff,
    decide_eq_false_iff_not]
  omega

theorem charsOf_cons_toNat (c : Char) (points : List Nat) :
    charsOf (c.toNat :: points) = (charsOf points).map (c :: ·) := by
  obtain ⟨hhigh, hlow⟩ := not_surrogate c
  cases points with
  | nil => simp [charsOf, hhigh, hlow]
  | cons p ps => simp [charsOf, hhigh, hlow]

theorem charsOf_units (c : Char) (points : List Nat) :
    charsOf (units c ++ points) = (charsOf points).map (c :: ·) := by
  unfold units
  split
  · exact charsOf_cons_toNat c points
  · next hlarge =>
    have hvalid := c.valid
    have hmax : c.toNat < 0x110000 := by
      simp only [UInt32.isValidChar, Nat.isValidChar] at hvalid
      simp only [Char.toNat]
      omega
    have hhigh : isHighSurrogate (0xd800 + (c.toNat - 0x10000) / 0x400) = true := by
      simp only [isHighSurrogate, Bool.and_eq_true, decide_eq_true_eq]
      omega
    have hlow : isLowSurrogate (0xdc00 + (c.toNat - 0x10000) % 0x400) = true := by
      simp only [isLowSurrogate, Bool.and_eq_true, decide_eq_true_eq]
      omega
    have hpoint : 0x10000 + (0xd800 + (c.toNat - 0x10000) / 0x400 - 0xd800) * 0x400 +
        (0xdc00 + (c.toNat - 0x10000) % 0x400 - 0xdc00) = c.toNat := by omega
    simp only [List.cons_append, List.nil_append, charsOf, hhigh, hlow, and_self, if_true, hpoint, Char.ofNat_toNat]

theorem charsOf_flatMap_units (t : Text) : charsOf (t.flatMap units) = some t := by
  induction t with
  | nil => rfl
  | cons c cs ih => rw [List.flatMap_cons, charsOf_units, ih, Option.map_some]

variable {names : Bool} {t : Text} {points : List Nat}

theorem Body.escapeUnit {n : Nat} (hn : n < 0x10000) (rest : Body t points) :
    Body (escapeUnit n ++ t) (n :: points) := by
  obtain ⟨values, hvalues, hlength, rfl⟩ := Text.exists_values_hexDigits hn
  exact .unit hvalues hlength rest

theorem units_of_lt {c : Char} (h : c.toNat < 0x10000) : units c = [c.toNat] := if_pos h

theorem Body.escapeChar (c : Char) (rest : Body t points) : Body (escapeChar c ++ t) (units c ++ points) := by
  unfold Json.escapeChar
  split
  · next h => rcases h with rfl | rfl <;> exact .escape rfl rest
  split
  · next h => subst h; exact .escape rfl rest
  split
  · next h => subst h; exact .escape rfl rest
  split
  · next h => subst h; exact .escape rfl rest
  split
  · next h => subst h; exact .escape rfl rest
  split
  · next h => subst h; exact .escape rfl rest
  split
  · next hquote _ _ _ _ _ hplain =>
    obtain ⟨hc, hslash⟩ := not_or.mp hquote
    rw [units_of_lt (by omega)]
    exact .plain hc hslash hplain.1 rest
  split
  · next hsmall =>
    rw [units_of_lt hsmall]
    exact rest.escapeUnit hsmall
  · next hlarge =>
    have hmax := c.valid
    simp only [UInt32.isValidChar, Nat.isValidChar, UInt32.toNat] at hmax
    have hhigh : 0xd800 + (c.toNat - 0x10000) / 0x400 < 0x10000 := by
      simp only [Char.toNat, UInt32.toNat]
      omega
    rw [units, if_neg hlarge, List.append_assoc]
    exact Body.escapeUnit hhigh (rest.escapeUnit (by omega))

theorem body_escaped (t : Text) : Body (t.flatMap escapeChar) (t.flatMap units) := by
  induction t with
  | nil => exact .nil
  | cons c cs ih =>
    rw [List.flatMap_cons, List.flatMap_cons]
    exact ih.escapeChar c

theorem writeText_eq (t : Text) : writeText t = quotedBody (t.flatMap escapeChar) := by
  simp [writeText, quotedBody]

theorem written_text (t : Text) : Written names (.value (some (.text t))) (writeText t) := by
  have h : Written names _ _ := .text (body_escaped t)
  rwa [charsOf_flatMap_units, Option.map_some, ← writeText_eq] at h

/-! ## Numbers and keys -/

mutual

/-- The numbers that are not written as whole numbers, in the document. -/
def numbers : Json → List Number
  | .number x => [x]
  | .array items => numbersOfItems items
  | .object fields => numbersOfFields fields
  | .null | .bool _ | .int _ | .text _ => []

def numbersOfItems : List Json → List Number
  | [] => []
  | item :: rest => numbers item ++ numbersOfItems rest

def numbersOfFields : List (Text × Json) → List Number
  | [] => []
  | (_, value) :: rest => numbers value ++ numbersOfFields rest

end

mutual

/-- No object has a key twice. -/
def Keyed : Json → Prop
  | .array items => KeyedItems items
  | .object fields => (Fields.keys fields).Nodup ∧ KeyedFields fields
  | .null | .bool _ | .int _ | .number _ | .text _ => True

def KeyedItems : List Json → Prop
  | [] => True
  | item :: rest => Keyed item ∧ KeyedItems rest

def KeyedFields : List (Text × Json) → Prop
  | [] => True
  | (_, value) :: rest => Keyed value ∧ KeyedFields rest

end

end Json

/-- A number that is no infinity and no nan. -/
def Number.IsFinite : Number → Prop
  | .finite _ _ => True
  | .nan | .infinite _ => False

namespace Fields
variable {α : Type}

theorem assign_of_not_mem {fields : Fields α} {key : Text} (h : key ∉ keys fields) (value : α) :
    assign fields key value = fields ++ [(key, value)] := by
  induction fields with
  | nil => rfl
  | cons field rest ih =>
    obtain ⟨hne, hrest⟩ := not_or.mp (List.mem_cons.not.mp h)
    rw [assign, if_neg (Ne.symm hne), ih hrest, List.cons_append]

/-- Fields with different keys are a map as they are. -/
theorem ofList_of_nodup {fields : Fields α} (h : (keys fields).Nodup) : ofList fields = fields := by
  have hupdate : ∀ (old new : Fields α), (keys (old ++ new)).Nodup → update old new = old ++ new := by
    intro old new hkeys
    induction new generalizing old with
    | nil => simp [update]
    | cons field rest ih =>
      have hfresh : field.1 ∉ keys old := by
        rw [keys, List.map_append, List.map_cons, List.nodup_middle, List.nodup_cons] at hkeys
        exact fun hmem => hkeys.1 (List.mem_append_left _ hmem)
      have hassign := assign_of_not_mem hfresh field.2
      have hrest := ih (assign old field.1 field.2) (by simpa [hassign] using hkeys)
      calc update old (field :: rest) = update (assign old field.1 field.2) rest := rfl
        _ = old ++ field :: rest := by rw [hrest, hassign, List.append_assoc, List.singleton_append]
  exact hupdate [] fields h

end Fields

namespace Json
variable {names : Bool}

theorem spaces_newline (depth : Nat) : Spaces (newline depth) := by
  intro c hc
  rcases List.mem_cons.mp hc with rfl | hc
  · decide
  · rw [(List.mem_replicate.mp hc).2]
    decide

theorem spaces_before (layout : Layout) : Spaces layout.before := by
  cases layout with
  | none => exact spaces_nil
  | some depth => exact spaces_newline (depth + 1)

theorem spaces_after (layout : Layout) : Spaces layout.after := by
  cases layout with
  | none => exact spaces_nil
  | some depth => exact spaces_newline depth

theorem between_eq (layout : Layout) : ∃ gap, Spaces gap ∧ layout.between = ',' :: gap := by
  cases layout with
  | none => exact ⟨[' '], fun c hc => List.mem_singleton.mp hc ▸ rfl, rfl⟩
  | some depth => exact ⟨newline (depth + 1), spaces_newline (depth + 1), rfl⟩

/-- What holds of the last of several parts, and of a part before others, holds of them all when they are
joined with commas. -/
theorem forall_joined {α : Type} {R : α → Text → Prop} {S : List α → Text → Prop} {gap after : Text} (hgap : Spaces gap)
    (hlast : ∀ {x t before}, Spaces before → R x t → S [x] (before ++ (t ++ after)))
    (hmore : ∀ {x xs t before more}, Spaces before → R x t → S xs more → S (x :: xs) (before ++ (t ++ ',' :: more)))
    {before : Text} (hbefore : Spaces before) {xs : List α} {texts : List Text} (h : List.Forall₂ R xs texts)
    (hne : xs ≠ []) : S xs (before ++ (Text.joinWith (',' :: gap) texts ++ after)) := by
  induction h generalizing before with
  | nil => exact absurd rfl hne
  | @cons x t xs texts hfirst hrest ih =>
    cases hrest with
    | nil =>
      rw [Text.joinWith_singleton]
      exact hlast hbefore hfirst
    | @cons second u others texts _ _ =>
      rw [Text.joinWith_cons_cons, List.append_assoc, List.append_assoc]
      exact hmore hbefore hfirst (ih hgap (List.cons_ne_nil _ _))

/-- Items one after the other, each with the layout's white space before it. -/
theorem written_items {before gap after : Text} (hbefore : Spaces before) (hgap : Spaces gap) (hafter : Spaces after)
    {items : List Json} {texts : List Text}
    (h : List.Forall₂ (fun item t => Written names (.value (some item)) t) items texts) (hne : items ≠ []) :
    Written names (.items (some items)) (before ++ (Text.joinWith (',' :: gap) texts ++ after)) := by
  refine forall_joined (S := fun items t => Written names (.items (some items)) t) hgap ?_ ?_ hbefore h hne
  · intro item t before hbefore hitem
    exact .lastItem hbefore hitem hafter
  · intro item items t before more hbefore hitem hmore
    exact .item hbefore hitem spaces_nil hmore

theorem written_fields {before gap after : Text} (hbefore : Spaces before) (hgap : Spaces gap) (hafter : Spaces after)
    {fields : List (Text × Json)} {texts : List Text}
    (h : List.Forall₂ (fun field t => Written names (.field (some field)) t) fields texts) (hne : fields ≠ []) :
    Written names (.fields (some fields)) (before ++ (Text.joinWith (',' :: gap) texts ++ after)) := by
  refine forall_joined (S := fun fields t => Written names (.fields (some fields)) t) hgap ?_ ?_ hbefore h hne
  · intro field t before hbefore hfield
    exact .lastField hbefore hfield hafter
  · intro field fields t before more hbefore hfield hmore
    exact .fields hbefore hfield spaces_nil hmore

theorem written_field (key : Text) {value : Json} {t : Text} (h : Written names (.value (some value)) t) :
    Written names (.field (some (key, value))) (writeText key ++ [':', ' '] ++ t) := by
  have hspace : Spaces [' '] := fun c hc => List.mem_singleton.mp hc ▸ rfl
  have hfield := Written.field (body_escaped key) spaces_nil hspace h
  rw [charsOf_flatMap_units] at hfield
  simpa [writeText_eq] using hfield

theorem written_number {x : Number} (h : names = true ∨ x.IsFinite) :
    Written names (.value (some (.number x))) (writeNumber x) := by
  cases x with
  | nan => exact .nan (h.resolve_right id)
  | infinite negative => exact .infinite (h.resolve_right id) negative
  | finite negative rank =>
    obtain ⟨n, htext, hvalue⟩ := Number.exists_numeral_write negative rank
    have hnumeral : Written names _ _ := .numeral n
    rwa [hvalue, htext] at hnumeral

theorem written_int (i : Int) : Written names (.value (some (.int i))) (Text.ofInt i) := by
  obtain ⟨n, htext, hvalue⟩ := exists_numeral_ofInt i
  have hnumeral : Written names _ _ := .numeral n
  rwa [hvalue, htext] at hnumeral

mutual

/-- Whatever the layout, what is written stands for the document. -/
theorem written_render (layout : Layout) (j : Json) (hkeys : j.Keyed)
    (h : ∀ x ∈ j.numbers, names = true ∨ x.IsFinite) : Written names (.value (some j)) (render layout j) := by
  cases j with
  | null => exact .null
  | bool b => exact .bool b
  | int i => exact written_int i
  | number x => exact written_number (h x List.mem_cons_self)
  | text t => exact written_text t
  | array items =>
    have hitems := written_renderItems layout.inner items hkeys h
    obtain ⟨gap, hgap, hbetween⟩ := between_eq layout
    cases items with
    | nil => exact .emptyArray spaces_nil
    | cons item rest =>
      have hall := written_items (spaces_before layout) hgap (spaces_after layout) hitems (List.cons_ne_nil _ _)
      simpa [render, enclose, hbetween, renderItems] using Written.array hall
  | object fields =>
    have hfields := written_renderFields layout.inner fields hkeys.2 h
    obtain ⟨gap, hgap, hbetween⟩ := between_eq layout
    cases fields with
    | nil => exact .emptyObject spaces_nil
    | cons field rest =>
      have hall := written_fields (spaces_before layout) hgap (spaces_after layout) hfields (List.cons_ne_nil _ _)
      have hobject := Written.object hall
      rw [Option.map_some, Fields.ofList_of_nodup hkeys.1] at hobject
      simpa [render, enclose, hbetween, renderFields] using hobject

theorem written_renderItems (layout : Layout) (items : List Json) (hkeys : KeyedItems items)
    (h : ∀ x ∈ numbersOfItems items, names = true ∨ x.IsFinite) :
    List.Forall₂ (fun item t => Written names (.value (some item)) t) items (renderItems layout items) := by
  cases items with
  | nil => exact .nil
  | cons item rest =>
    simp only [numbersOfItems, List.forall_mem_append] at h
    exact .cons (written_render layout item hkeys.1 h.1) (written_renderItems layout rest hkeys.2 h.2)

theorem written_renderFields (layout : Layout) (fields : List (Text × Json)) (hkeys : KeyedFields fields)
    (h : ∀ x ∈ numbersOfFields fields, names = true ∨ x.IsFinite) :
    List.Forall₂ (fun field t => Written names (.field (some field)) t) fields (renderFields layout fields) := by
  match fields with
  | [] => exact .nil
  | (key, value) :: rest =>
    simp only [numbersOfFields, List.forall_mem_append] at h
    exact .cons (written_field key (written_render layout value hkeys.1 h.1))
      (written_renderFields layout rest hkeys.2 h.2)

end

end Json

end SnippetTutor
