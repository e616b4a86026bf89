import SnippetTutor.Json.Token

/-! # Numerals

A numeral of a document has whole digits without a needless zero in front, and may have a minus
sign, digits after a point, and an exponent. The reader of decimals takes exactly these parts out
of its text.
-/
namespace SnippetTutor

namespace Text

def IsDigit (c : Char) : Prop := '0' ≤ c ∧ c ≤ '9'

instance (c : Char) : Decidable (IsDigit c) := inferInstanceAs (Decidable (_ ∧ _))

def digitValue (c : Char) : Nat := c.toNat - 48

/-- One digit or more. -/
def Digits (t : Text) : Prop := t ≠ [] ∧ ∀ c ∈ t, IsDigit c

/-- Nothing follows that would go on with a number's digits. -/
def NoDigit (t : Text) : Prop := ∀ c ∈ t.head?, ¬ IsDigit c

theorem asciiDigit?_of_isDigit {c : Char} (h : IsDigit c) : asciiDigit? c = some (digitValue c) := if_pos h

theorem asciiDigit?_of_not_isDigit {c : Char} (h : ¬ IsDigit c) : asciiDigit? c = none := if_neg h

end Text

namespace Json
open Text

structure Numeral.Exponent where
  letter : Char
  sign : Option Char
  digits : Text
  letter_cases : letter = 'e' ∨ letter = 'E'
  sign_cases : sign = none ∨ sign = some '+' ∨ sign = some '-'
  isDigits : Digits digits

structure Numeral where
  negative : Bool
  whole : Text
  fraction : Option Text
  exponent : Option Numeral.Exponent
  whole_isDigits : Digits whole
  whole_shortest : whole.head? = some '0' → whole = ['0']
  fraction_isDigits : ∀ t ∈ fraction, Digits t

namespace Numeral

def Exponent.text (e : Exponent) : Text := e.letter :: (e.sign.toList ++ e.digits)

def Exponent.value (e : Exponent) : Int :=
  let n : Int := numberOf 10 (e.digits.map digitValue)
  if e.sign = some '-' then -n else n

def fractionText : Option Text → Text
  | none => []
  | some digits => '.' :: digits

def exponentText : Option Exponent → Text
  | none => []
  | some e => e.text

def text (n : Numeral) : Text :=
  (if n.negative then ['-'] else []) ++ (n.whole ++ (fractionText n.fraction ++ exponentText n.exponent))

/-- The numeral as the reader of decimals sees it. -/
def decimal (n : Numeral) : Decimal where
  sign := if n.negative then some '-' else none
  whole := n.whole.map digitValue
  fraction := n.fraction.map (List.map digitValue)
  exponent := n.exponent.map Exponent.value

/-- A numeral without a point and an exponent stands for a whole number, and every other one for
the nearest number of double precision. -/
def value (n : Numeral) : Json :=
  if n.decimal.isWhole then .int (if n.negative then -(n.decimal.digits : Int) else n.decimal.digits)
  else .number n.decimal.value

end Numeral

end Json

namespace Decimal
open Text Json

theorem digitsOf_append {digits rest : Text} (hdigits : ∀ c ∈ digits, IsDigit c) (hrest : NoDigit rest) :
    digitsOf asciiDigit? (digits ++ rest) = (digits.map digitValue, rest) := by
  induction digits with
  | nil =>
    cases rest with
    | nil => rfl
    | cons c more => simp [digitsOf, asciiDigit?_of_not_isDigit (hrest c rfl)]
  | cons d ds ih =>
    obtain ⟨hd, hds⟩ := List.forall_mem_cons.mp hdigits
    simp [digitsOf, asciiDigit?_of_isDigit hd, ih hds]

/-- A digit is no sign. -/
theorem signOf_of_digits {digits : Text} (h : Digits digits) (rest : Text) :
    signOf (digits ++ rest) = (none, digits ++ rest) := by
  obtain ⟨hne, hdigits⟩ := h
  cases digits with
  | nil => exact absurd rfl hne
  | cons d ds =>
    have hd := hdigits d List.mem_cons_self
    have hplus : d ≠ '+' := by
      rintro rfl
      exact absurd hd (by decide)
    have hminus : d ≠ '-' := by
      rintro rfl
      exact absurd hd (by decide)
    simp only [signOf, List.cons_append]
    split
    · next heq => exact absurd (List.cons.inj heq).1 hplus
    · next heq => exact absurd (List.cons.inj heq).1 hminus
    · rfl

theorem exponentOf_text (e : Numeral.Exponent) : exponentOf asciiDigit? e.text = some (some e.value) := by
  obtain ⟨d, ds, hdigits⟩ := List.exists_cons_of_ne_nil e.isDigits.1
  have hvalues : digitsOf asciiDigit? e.digits = (e.digits.map digitValue, []) := by
    simpa using digitsOf_append e.isDigits.2 (nofun : NoDigit [])
  have hsign : signOf (e.sign.toList ++ e.digits) = (e.sign, e.digits) := by
    rcases e.sign_cases with h | h | h
    · rw [h]
      simpa using signOf_of_digits e.isDigits []
    · rw [h]
      rfl
    · rw [h]
      rfl
  simp only [Numeral.Exponent.text, exponentOf, if_pos e.letter_cases, hsign, hvalues]
  simp [hdigits, Numeral.Exponent.value]

theorem exponentOf_exponentText (exponent : Option Numeral.Exponent) :
    exponentOf asciiDigit? (Numeral.exponentText exponent) = some (exponent.map Numeral.Exponent.value) := by
  cases exponent with
  | none => rfl
  | some e => exact exponentOf_text e

theorem noDigit_exponentText (exponent : Option Numeral.Exponent) : NoDigit (Numeral.exponentText exponent) := by
  cases exponent with
  | none => nofun
  | some e =>
    intro c hc
    obtain rfl := Option.some.inj hc
    rcases e.letter_cases with h | h <;> rw [h] <;> decide

theorem fractionOf_text {fraction : Option Text} (hfraction : ∀ t ∈ fraction, Digits t) {rest : Text}
    (hrest : NoDigit rest) (hpoint : rest.head? ≠ some '.') :
    fractionOf asciiDigit? (Numeral.fractionText fraction ++ rest) = (fraction.map (List.map digitValue), rest) := by
  cases fraction with
  | none =>
    simp only [Numeral.fractionText, List.nil_append, fractionOf]
    split
    · exact absurd rfl hpoint
    · rfl
  | some digits =>
    simp [Numeral.fractionText, fractionOf, digitsOf_append (hfraction digits rfl).2 hrest]

/-- The reader of decimals takes a numeral apart again. -/
theorem read?_text (n : Numeral) : read? asciiDigit? n.text = some n.decimal := by
  have hpoint : (Numeral.exponentText n.exponent).head? ≠ some '.' := by
    cases h : n.exponent with
    | none => nofun
    | some e =>
      rw [Numeral.exponentText, Numeral.Exponent.text, List.head?_cons, Ne, Option.some.injEq]
      rcases e.letter_cases with h | h <;> rw [h] <;> decide
  have hrest : NoDigit (Numeral.fractionText n.fraction ++ Numeral.exponentText n.exponent) := by
    cases n.fraction with
    | none => exact noDigit_exponentText n.exponent
    | some digits =>
      intro c hc
      obtain rfl := Option.some.inj hc
      decide
  have hsign : signOf n.text = (n.decimal.sign,
      n.whole ++ (Numeral.fractionText n.fraction ++ Numeral.exponentText n.exponent)) := by
    unfold Numeral.text Numeral.decimal
    cases n.negative with
    | true => rfl
    | false => exact signOf_of_digits n.whole_isDigits _
  simp only [read?, hsign, digitsOf_append n.whole_isDigits.2 hrest,
    fractionOf_text n.fraction_isDigits (noDigit_exponentText n.exponent) hpoint, exponentOf_exponentText]
  rfl

end Decimal

namespace Json
open Text

theorem eq_zero_of_digitValue {c : Char} (h : IsDigit c) (hzero : digitValue c = 0) : c = '0' := by
  refine Char.le_antisymm ?_ h.1
  rw [Char.le_def, UInt32.le_iff_toNat_le]
  exact Nat.sub_eq_zero_iff_le.mp hzero

namespace Numeral

theorem whole_decimal (n : Numeral) : n.decimal.whole ≠ [] ∧
    ¬ (n.decimal.whole.head? = some 0 ∧ n.decimal.whole.length ≠ 1) := by
  obtain ⟨hne, hdigits⟩ := n.whole_isDigits
  refine ⟨by simpa [decimal] using hne, ?_⟩
  rintro ⟨hhead, hlength⟩
  simp only [decimal, List.head?_map, Option.map_eq_some_iff] at hhead
  obtain ⟨c, hc, hzero⟩ := hhead
  have hwhole := n.whole_shortest (eq_zero_of_digitValue (hdigits c (List.mem_of_head? hc)) hzero ▸ hc)
  exact hlength (by simp [decimal, hwhole])

theorem fraction_decimal (n : Numeral) : n.decimal.fraction ≠ some [] := by
  intro h
  obtain ⟨digits, hdigits, hnil⟩ := Option.map_eq_some_iff.mp h
  exact (n.fraction_isDigits digits hdigits).1 (List.map_eq_nil_iff.mp hnil)

/-- A reader that bears a numeral reads it as its value. -/
theorem numberWord?_text {limits : Limits} {n : Numeral} (hlimits : limits.tooLong n.decimal = false) :
    numberWord? limits n.text = some n.value := by
  have hsign : n.decimal.sign ≠ some '+' := by
    simp only [decimal]
    cases n.negative <;> simp
  have hnegative : n.decimal.negative = n.negative := by
    simp only [Decimal.negative, decimal]
    cases n.negative <;> rfl
  obtain ⟨hne, hwhole⟩ := n.whole_decimal
  simp only [numberWord?, Decimal.read?_text, Option.bind_eq_bind, Option.bind_some, hsign, hne,
    n.fraction_decimal, or_self, if_false, if_neg hwhole, hlimits, Bool.false_eq_true, value, hnegative]
  split <;> rfl

theorem text_ne_nil (n : Numeral) : n.text ≠ [] := by
  obtain ⟨c, rest, hwhole⟩ := List.exists_cons_of_ne_nil n.whole_isDigits.1
  simp [text, hwhole]

/-- A numeral starts with a digit or with a minus sign and a digit. -/
theorem head?_text (n : Numeral) : ∃ c, IsDigit c ∧ (n.text.head? = some c ∨
    ∃ rest, n.text = '-' :: c :: rest) := by
  obtain ⟨c, rest, hwhole⟩ := List.exists_cons_of_ne_nil n.whole_isDigits.1
  refine ⟨c, n.whole_isDigits.2 c (by rw [hwhole]; exact List.mem_cons_self), ?_⟩
  unfold text
  rw [hwhole]
  cases n.negative with
  | true => exact Or.inr ⟨_, rfl⟩
  | false => exact Or.inl rfl

theorem wordValue?_text {limits : Limits} {n : Numeral} (hlimits : limits.tooLong n.decimal = false) :
    wordValue? limits n.text = some n.value := by
  obtain ⟨c, hc, hhead⟩ := n.head?_text
  have hletter : ∀ {word : Text}, (∃ d, word.head? = some d ∧ ¬ IsDigit d ∧ d ≠ '-') → n.text ≠ word := by
    rintro word ⟨d, hd, hdigit, hminus⟩ rfl
    rcases hhead with hhead | ⟨rest, hrest⟩
    · exact hdigit (Option.some.inj (hd.symm.trans hhead) ▸ hc)
    · rw [hrest] at hd
      exact hminus (Option.some.inj hd).symm
  have hinfinite : n.text ≠ "-Infinity".toList := by
    intro heq
    rcases hhead with hhead | ⟨rest, hrest⟩
    · rw [heq] at hhead
      obtain rfl := Option.some.inj hhead
      exact absurd hc (by decide)
    · rw [heq] at hrest
      have hsecond := congrArg (fun t => t.tail.head?) hrest
      obtain rfl := Option.some.inj hsecond
      exact absurd hc (by decide)
  unfold wordValue?
  rw [if_neg (hletter ⟨'t', rfl, by decide, by decide⟩), if_neg (hletter ⟨'f', rfl, by decide, by decide⟩),
    if_neg (hletter ⟨'n', rfl, by decide, by decide⟩), if_neg (hletter ⟨'N', rfl, by decide, by decide⟩),
    if_neg (hletter ⟨'I', rfl, by decide, by decide⟩), if_neg hinfinite, numberWord?_text hlimits]

theorem isWordPart_of_isDigit {c : Char} (h : IsDigit c) : isWordPart c = true := by
  simp [isWordPart, asciiDigit?_of_isDigit h]

/-- The characters of a numeral. -/
theorem mem_text_cases {n : Numeral} {c : Char} (h : c ∈ n.text) : IsDigit c ∨ c ∈ ['-', '+', '.', 'e', 'E'] := by
  simp only [text, List.mem_append] at h
  rcases h with h | h | h | h
  · split at h
    · rw [List.mem_singleton.mp h]
      exact Or.inr (by decide)
    · cases h
  · exact Or.inl (n.whole_isDigits.2 c h)
  · cases hfraction : n.fraction with
    | none => rw [hfraction] at h; cases h
    | some digits =>
      rw [hfraction] at h
      rcases List.mem_cons.mp h with rfl | h
      · exact Or.inr (by decide)
      · exact Or.inl ((n.fraction_isDigits digits hfraction).2 c h)
  · cases hexponent : n.exponent with
    | none => rw [hexponent] at h; cases h
    | some e =>
      rw [hexponent] at h
      simp only [exponentText, Exponent.text, List.mem_cons, List.mem_append] at h
      rcases h with rfl | h | h
      · rcases e.letter_cases with h | h <;> rw [h] <;> exact Or.inr (by decide)
      · rcases e.sign_cases with hsign | hsign | hsign <;> rw [hsign] at h
        · cases h
        · rw [List.mem_singleton.mp h]
          exact Or.inr (by decide)
        · rw [List.mem_singleton.mp h]
          exact Or.inr (by decide)
      · exact Or.inl (e.isDigits.2 c h)

theorem isWordPart_of_mem_text {n : Numeral} {c : Char} (h : c ∈ n.text) : isWordPart c = true := by
  have hother : ∀ d ∈ ['-', '+', '.', 'e', 'E'], isWordPart d = true := by decide
  exact (mem_text_cases h).elim isWordPart_of_isDigit (hother c)

end Numeral

end Json

end SnippetTutor
