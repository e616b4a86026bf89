import Mathlib.Data.List.Induction
import SnippetTutor.Number.Notation
import SnippetTutor.Proofs.Json.Numeral
import SnippetTutor.Proofs.Number.Shortest

/-! # Written numbers are numerals

The full notation of a finite number is a numeral of a document that stands for that very number,
and so are the digits of a whole number.
-/
namespace SnippetTutor

namespace Text

theorem numberOf_append (xs ys : List Nat) :
    numberOf 10 (xs ++ ys) = numberOf 10 xs * 10 ^ ys.length + numberOf 10 ys := by
  induction ys using List.reverseRecOn with
  | nil => simp [numberOf]
  | append_singleton ys y ih =>
    have hlast : ∀ zs : List Nat, numberOf 10 (zs ++ [y]) = 10 * numberOf 10 zs + y := fun zs => by simp [numberOf]
    rw [← List.append_assoc, hlast, hlast, ih, List.length_append, List.length_singleton, Nat.pow_succ]
    rw [Nat.mul_add, Nat.add_assoc, Nat.mul_left_comm 10, Nat.mul_comm 10 (10 ^ ys.length)]

theorem numberOf_zeros (k : Nat) : numberOf 10 (List.replicate k 0) = 0 := by
  induction k with
  | zero => rfl
  | succ k ih => rw [List.replicate_succ', numberOf_append, ih]; rfl

theorem map_digitValue_zeros (k : Nat) : (List.replicate k '0').map digitValue = List.replicate k 0 := by
  rw [List.map_replicate]
  rfl

theorem digits_ofNat (n : Nat) : Digits (ofNat n) := by
  refine ⟨Nat.toDigits_ne_nil, fun c hc => ?_⟩
  have hdigit := Nat.isDigit_of_mem_toDigits (by decide) (by decide) hc
  simpa [Char.isDigit, IsDigit, Char.le_def] using hdigit

theorem numberOf_ofNat (n : Nat) : numberOf 10 ((ofNat n).map digitValue) = n := by
  have hread : Nat.ofDigitChars 10 (Nat.toDigits 10 n) 0 = n := Nat.ofDigitChars_toDigits (by decide) (by decide)
  rw [numberOf, List.foldl_map]
  exact hread

theorem head?_ofNat {n : Nat} (h : 0 < n) : (ofNat n).head? ≠ some '0' := by
  induction n using Nat.strongRecOn with
  | ind n ih =>
    rw [ofNat]
    by_cases hlt : n < 10
    · have hdigit : ∀ m < 10, 0 < m → m.digitChar ≠ '0' := by decide
      rw [Nat.toDigits_of_lt_base hlt]
      exact fun heq => hdigit n hlt h (Option.some.inj heq)
    · rw [Nat.toDigits_of_base_le (by decide) (by omega)]
      obtain ⟨d, ds, hdigits⟩ := List.exists_cons_of_ne_nil (Nat.toDigits_ne_nil (n := n / 10) (b := 10))
      have hhead := ih (n / 10) (by omega) (by omega)
      rw [ofNat, hdigits] at hhead
      rw [hdigits]
      exact hhead

end Text

namespace Number
open Json Text
variable {negative : Bool} {c : Candidate} {leading : Int}

theorem rankOfCandidate_addZeros (digits : Nat) (power : Int) (k : Nat) :
    rankOfCandidate ⟨digits * 10 ^ k, power - k⟩ = rankOfCandidate ⟨digits, power⟩ := by
  induction k with
  | zero => simp
  | succ k ih =>
    have hzero : digits * 10 ^ (k + 1) % 10 = 0 := by simp [Nat.pow_succ, ← Nat.mul_assoc]
    rw [← ih, ← rankOfCandidate_dropZero hzero]
    congr 1
    rw [Nat.pow_succ, ← Nat.mul_assoc, Nat.mul_div_cancel _ (by decide), Candidate.mk.injEq]
    omega

theorem digits_decimal (n : Numeral) :
    n.decimal.digits = numberOf 10 ((n.whole ++ n.fraction.getD []).map digitValue) := by
  unfold Decimal.digits Numeral.decimal
  cases n.fraction <;> simp

theorem power_decimal (n : Numeral) :
    n.decimal.power = (n.exponent.map Numeral.Exponent.value).getD 0 - (n.fraction.getD []).length := by
  unfold Decimal.power Numeral.decimal
  cases n.fraction <;> simp

/-- A numeral that is written with a sign before the text and stands for the decimal. -/
structure Denotes (negative : Bool) (t : Text) (c : Candidate) (n : Numeral) : Prop where
  negative_eq : n.negative = negative
  text_eq : n.text = writeSign negative ++ t
  not_whole : n.decimal.isWhole = false
  rank_eq : rankOfCandidate ⟨n.decimal.digits, n.decimal.power⟩ = rankOfCandidate c

theorem digits_zero : Digits ['0'] :=
  ⟨List.cons_ne_nil _ _, fun _ hd => List.mem_singleton.mp hd ▸ by decide⟩

theorem isDigit_zeros (k : Nat) : ∀ d ∈ List.replicate k '0', IsDigit d := by
  intro d hd
  rw [(List.mem_replicate.mp hd).2]
  decide

theorem digits_zeros_append (k : Nat) {digits : Text} (h : Digits digits) :
    Digits (List.replicate k '0' ++ digits) :=
  ⟨by simp [h.1], List.forall_mem_append.mpr ⟨isDigit_zeros k, h.2⟩⟩

theorem digits_append_zeros (k : Nat) {digits : Text} (h : Digits digits) :
    Digits (digits ++ List.replicate k '0') :=
  ⟨by simp [h.1], List.forall_mem_append.mpr ⟨h.2, isDigit_zeros k⟩⟩

theorem numberOf_zeros_append (k n : Nat) :
    numberOf 10 ((List.replicate k '0' ++ ofNat n).map digitValue) = n := by
  rw [List.map_append, map_digitValue_zeros, numberOf_append, numberOf_zeros, numberOf_ofNat, Nat.zero_mul,
    Nat.zero_add]

theorem numberOf_append_zeros (t : Text) (k : Nat) :
    numberOf 10 ((t ++ List.replicate k '0').map digitValue) = numberOf 10 (t.map digitValue) * 10 ^ k := by
  rw [List.map_append, map_digitValue_zeros, numberOf_append, numberOf_zeros, List.length_replicate, Nat.add_zero]

theorem exists_positional_fraction (hleading : leading = c.power + (ofNat c.digits).length - 1) (h : leading < 0) :
    ∃ n, Denotes negative (writePositional (ofNat c.digits) leading) c n := by
  have hfraction := digits_zeros_append (leading.natAbs - 1) (digits_ofNat c.digits)
  refine ⟨⟨negative, ['0'], some (List.replicate (leading.natAbs - 1) '0' ++ ofNat c.digits), none,
    digits_zero, fun _ => rfl, fun t ht => Option.some.inj ht ▸ hfraction⟩, rfl, ?_, rfl, ?_⟩
  · simp only [Numeral.text, Numeral.fractionText, Numeral.exponentText, writePositional, if_pos h]
    simp [writeSign]
  · rw [digits_decimal, power_decimal]
    have hdigits : '0' :: (List.replicate (leading.natAbs - 1) '0' ++ ofNat c.digits) =
        List.replicate (leading.natAbs - 1 + 1) '0' ++ ofNat c.digits := rfl
    simp only [Option.getD_some, List.singleton_append, hdigits, numberOf_zeros_append, Option.map_none,
      Option.getD_none, List.length_append, List.length_replicate]
    congr 2
    omega

theorem eq_zero_of_head?_ofNat {n : Nat} (h : (ofNat n).head? = some '0') : n = 0 := by
  rcases Nat.eq_zero_or_pos n with hn | hn
  · exact hn
  · exact absurd h (head?_ofNat hn)

/-- All digits stand before the point, and zeros fill the places up to it. -/
theorem exists_positional_padded (hzero : c.digits = 0 → c.power = 0)
    (hleading : leading = c.power + (ofNat c.digits).length - 1) (h : ¬ leading < 0)
    (hle : (ofNat c.digits).length ≤ leading.natAbs + 1) :
    ∃ n, Denotes negative (writePositional (ofNat c.digits) leading) c n := by
  have hdigits := digits_ofNat c.digits
  have hnum := numberOf_ofNat c.digits
  have hlength := List.length_pos_iff.mpr hdigits.1
  obtain ⟨zeros, hzeros⟩ : ∃ zeros, zeros = leading.natAbs + 1 - (ofNat c.digits).length := ⟨_, rfl⟩
  refine ⟨⟨negative, ofNat c.digits ++ List.replicate zeros '0', some ['0'], none,
    digits_append_zeros zeros hdigits, ?_, fun t ht => Option.some.inj ht ▸ digits_zero⟩, rfl, ?_, rfl, ?_⟩
  · intro heq
    rw [List.head?_append, Option.or_of_isSome (List.isSome_head?.mpr hdigits.1)] at heq
    have hd := eq_zero_of_head?_ofNat heq
    have hone : (ofNat 0).length = 1 := rfl
    rw [hd, hone] at hzeros hleading
    obtain rfl : zeros = 0 := by omega
    rw [hd]
    rfl
  · have hdrop : (ofNat c.digits).drop (leading.natAbs + 1) = [] := List.drop_eq_nil_of_le hle
    simp only [Numeral.text, Numeral.fractionText, Numeral.exponentText, writePositional, if_neg h, hdrop,
      List.take_of_length_le hle]
    simp [writeSign, hzeros]
  · rw [digits_decimal, power_decimal]
    have hall : ofNat c.digits ++ List.replicate zeros '0' ++ ['0'] =
        ofNat c.digits ++ List.replicate (zeros + 1) '0' := by
      rw [List.replicate_succ', List.append_assoc]
    simp only [Option.getD_some, hall, numberOf_append_zeros, hnum, Option.map_none, Option.getD_none]
    rw [← rankOfCandidate_addZeros c.digits c.power (zeros + 1)]
    congr 2
    simp only [List.length_singleton]
    omega

/-- The point stands between the digits. -/
theorem exists_positional_split (hleading : leading = c.power + (ofNat c.digits).length - 1) (h : ¬ leading < 0)
    (hlt : leading.natAbs + 1 < (ofNat c.digits).length) :
    ∃ n, Denotes negative (writePositional (ofNat c.digits) leading) c n := by
  obtain ⟨hne, hdigits⟩ := digits_ofNat c.digits
  have hdrop : (ofNat c.digits).drop (leading.natAbs + 1) ≠ [] := by simpa using hlt
  refine ⟨⟨negative, (ofNat c.digits).take (leading.natAbs + 1),
    some ((ofNat c.digits).drop (leading.natAbs + 1)), none,
    ⟨by simp [hne], fun d hd => hdigits d (List.mem_of_mem_take hd)⟩, ?_,
    fun t ht => Option.some.inj ht ▸ ⟨hdrop, fun d hd => hdigits d (List.mem_of_mem_drop hd)⟩⟩, rfl, ?_, rfl, ?_⟩
  · intro heq
    rw [List.head?_take, if_neg (by omega)] at heq
    have hone : (ofNat 0).length = 1 := rfl
    rw [eq_zero_of_head?_ofNat heq, hone] at hlt
    omega
  · simp only [Numeral.text, Numeral.fractionText, Numeral.exponentText, writePositional, if_neg h]
    simp [writeSign, hdrop, Nat.sub_eq_zero_of_le (Nat.le_of_lt hlt)]
  · rw [digits_decimal, power_decimal]
    simp only [Option.getD_some, List.take_append_drop, numberOf_ofNat, Option.map_none, Option.getD_none,
      List.length_drop]
    congr 2
    omega

theorem exists_positional_whole (hzero : c.digits = 0 → c.power = 0)
    (hleading : leading = c.power + (ofNat c.digits).length - 1) (h : ¬ leading < 0) :
    ∃ n, Denotes negative (writePositional (ofNat c.digits) leading) c n := by
  by_cases hle : (ofNat c.digits).length ≤ leading.natAbs + 1
  · exact exists_positional_padded hzero hleading h hle
  · exact exists_positional_split hleading h (Nat.not_le.mp hle)

theorem exists_scientific (hleading : leading = c.power + (ofNat c.digits).length - 1) :
    ∃ n, Denotes negative (writeScientific (ofNat c.digits) leading) c n := by
  obtain ⟨hne, hdigits⟩ := digits_ofNat c.digits
  have hnum := numberOf_ofNat c.digits
  obtain ⟨d, ds, hds⟩ := List.exists_cons_of_ne_nil hne
  rw [hds] at hdigits hnum hleading ⊢
  obtain ⟨hd, hrest⟩ := List.forall_mem_cons.mp hdigits
  have hexponent := digits_zeros_append (2 - (ofNat leading.natAbs).length) (digits_ofNat leading.natAbs)
  let e : Numeral.Exponent := ⟨'e', some (if leading < 0 then '-' else '+'), _, Or.inl rfl,
    by split <;> simp, hexponent⟩
  have hevalue : e.value = leading := by
    simp only [Numeral.Exponent.value, e, numberOf_zeros_append, Option.some.injEq]
    by_cases hnegative : leading < 0
    · rw [if_pos hnegative, if_pos rfl]
      omega
    · rw [if_neg hnegative, if_neg (by decide)]
      omega
  have hfraction : ∀ t ∈ (if ds = [] then none else some ds), Digits t := by
    intro t ht
    split at ht
    · cases ht
    · next hds => exact Option.some.inj ht ▸ ⟨hds, hrest⟩
  refine ⟨⟨negative, [d], if ds = [] then none else some ds, some e,
    ⟨List.cons_ne_nil _ _, by simpa using hd⟩,
    fun h => by rw [Option.some.inj h], hfraction⟩, rfl, ?_, by simp [Decimal.isWhole, Numeral.decimal], ?_⟩
  · simp only [Numeral.text, Numeral.exponentText, Numeral.Exponent.text, writeScientific, writeExponent]
    by_cases hds : ds = [] <;> simp [hds, e, writeSign, Numeral.fractionText]
  · have hfraction : (if ds = [] then none else some ds : Option Text).getD [] = ds := by
      split
      · next hds => exact hds.symm
      · rfl
    rw [digits_decimal, power_decimal]
    simp only [hfraction, Option.map_some, Option.getD_some, hevalue, List.singleton_append, hnum]
    congr 2
    simp only [List.length_cons] at hleading
    omega

/-- What is written for a finite number is a numeral that stands for the number. -/
theorem exists_numeral_write (negative : Bool) (rank : Fin finiteRanks) :
    ∃ n : Numeral, n.text = write (.finite negative rank) ∧ n.value = .number (.finite negative rank) := by
  have hzero : (shortest rank).digits = 0 → (shortest rank).power = 0 := by
    intro hdigits
    rcases Nat.eq_zero_or_pos rank.val with hrank | hrank
    · rw [hrank]
      rfl
    · exact absurd hdigits (Nat.pos_iff_ne_zero.mp (shortest_digits_pos hrank))
  have hexists : ∃ n, Denotes negative (writeMagnitude rank) (shortest rank) n := by
    unfold writeMagnitude
    simp only
    split
    · by_cases hneg : (shortest rank).power + (ofNat (shortest rank).digits).length - 1 < 0
      · exact exists_positional_fraction rfl hneg
      · exact exists_positional_whole hzero rfl hneg
    · exact exists_scientific rfl
  obtain ⟨n, hnegative, htext, hwhole, hrank⟩ := hexists
  refine ⟨n, htext, ?_⟩
  have hsign : n.decimal.negative = negative := by
    simp only [Decimal.negative, Numeral.decimal, hnegative]
    cases negative <;> rfl
  rw [Numeral.value, hwhole, if_neg Bool.false_ne_true, Decimal.value, hsign, ofScientific_eq, hrank,
    rankOfCandidate_shortest, ofRank, dif_pos rank.isLt]

end Number

namespace Json
open Text

/-- The digits of a whole number are a numeral that stands for it. -/
theorem exists_numeral_ofInt (i : Int) : ∃ n : Numeral, n.text = Text.ofInt i ∧ n.value = .int i := by
  have hzero : ∀ k, (ofNat k).head? = some '0' → ofNat k = ['0'] := by
    intro k hhead
    rcases Nat.eq_zero_or_pos k with rfl | hk
    · rfl
    · exact absurd hhead (head?_ofNat hk)
  have hvalue : ∀ k negative h₁ h₂ h₃, (Numeral.mk negative (ofNat k) none none h₁ h₂ h₃).value =
      .int (if negative then -(k : Int) else k) := by
    intro k negative h₁ h₂ h₃
    simp only [Numeral.value, Number.digits_decimal, Option.getD_none, List.append_nil, numberOf_ofNat]
    rfl
  cases i with
  | ofNat k =>
    refine ⟨⟨false, ofNat k, none, none, digits_ofNat k, hzero k, by simp⟩, ?_, ?_⟩
    · simp [Numeral.text, Numeral.fractionText, Numeral.exponentText, ofInt]
    · rw [hvalue]
      rfl
  | negSucc k =>
    refine ⟨⟨true, ofNat (k + 1), none, none, digits_ofNat (k + 1), hzero (k + 1), by simp⟩, ?_, ?_⟩
    · simp [Numeral.text, Numeral.fractionText, Numeral.exponentText, ofInt]
    · rw [hvalue]
      rfl

end Json

end SnippetTutor
