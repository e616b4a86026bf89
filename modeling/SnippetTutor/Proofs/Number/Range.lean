import Mathlib.Algebra.Group.Nat.Defs
import SnippetTutor.Number.Basic

/-! # Whole numbers beyond the finite range

A whole number becomes a number by rounding. The least one that is rounded past every
finite number is half-way between the greatest finite number, `(2 ^ 53 - 1) · 2 ^ 971`,
and the next power of two, because the tie goes to the even neighbour.
-/
namespace SnippetTutor.Number

/-- The least magnitude of a whole number that is no finite number. -/
def overflow : Nat := (2 ^ 54 - 1) * 2 ^ 970

-- The exponents are named, since no proof may write the powers out.
theorem overflow_eq : ∃ u, u = 970 ∧ overflow = (2 ^ 54 - 1) * 2 ^ u :=
  ⟨_, rfl, overflow.eq_1⟩

theorem unitsPerOne_eq : ∃ e, e = 1074 ∧ unitsPerOne = Nat.pow 2 e := by
  refine ⟨1074, rfl, ?_⟩
  unfold unitsPerOne
  exact Eq.refl _

attribute [irreducible] overflow

theorem roundDiv_eq_or (a d : Nat) : roundDiv a d = a / d ∨ roundDiv a d = a / d + 1 := by
  unfold roundDiv
  simp only
  split
  · exact Or.inl rfl
  · split
    · exact Or.inr rfl
    · split
      · exact Or.inl rfl
      · exact Or.inr rfl

/-- From an odd quotient the division is rounded up at the tie already. -/
theorem roundDiv_of_odd {a d : Nat} (h : a / d % 2 = 1) :
    roundDiv a d = if 2 * (a % d) < d then a / d else a / d + 1 := by
  unfold roundDiv
  simp only [h]
  split
  · rfl
  · split <;> simp

/-- An even number is reached exactly from half a unit below it. -/
theorem even_le_roundDiv {a d k : Nat} (hd : 0 < d) :
    2 * k + 2 ≤ roundDiv a d ↔ (4 * k + 3) * d ≤ 2 * a := by
  have hdiv := Nat.div_add_mod a d
  have hmod := Nat.mod_lt a hd
  have hround := roundDiv_eq_or a d
  have hexpand : (4 * k + 3) * d = 4 * (d * k) + 3 * d := by
    rw [Nat.add_mul, Nat.mul_assoc, Nat.mul_comm k d]
  rw [hexpand]
  rcases Nat.lt_trichotomy (a / d) (2 * k + 1) with hlt | heq | hgt
  · have hprod : d * (a / d) + d ≤ 2 * (d * k) + d := by
      calc d * (a / d) + d = d * (a / d + 1) := by rw [Nat.mul_add, Nat.mul_one]
        _ ≤ d * (2 * k + 1) := Nat.mul_le_mul_left d hlt
        _ = 2 * (d * k) + d := by rw [Nat.mul_add, Nat.mul_left_comm, Nat.mul_one]
    omega
  · have hprod : d * (a / d) = 2 * (d * k) + d := by
      rw [heq, Nat.mul_add, Nat.mul_left_comm, Nat.mul_one]
    rw [roundDiv_of_odd (by omega), heq]
    split <;> omega
  · have hprod : 2 * (d * k) + 2 * d ≤ d * (a / d) := by
      calc 2 * (d * k) + 2 * d = d * (2 * k + 2) := by rw [Nat.mul_add, Nat.mul_left_comm, Nat.mul_comm d 2]
        _ ≤ d * (a / d) := Nat.mul_le_mul_left d hgt
    omega

theorem roundDiv_le {a d k : Nat} (hd : 0 < d) (h : a ≤ k * d) : roundDiv a d ≤ k := by
  have hround := roundDiv_eq_or a d
  have hq : a / d ≤ k := Nat.div_le_of_le_mul (by rwa [Nat.mul_comm])
  rcases Nat.lt_or_eq_of_le hq with hlt | heq
  · omega
  · have hdiv := Nat.div_add_mod a d
    have hzero : a % d = 0 := by
      rw [heq, Nat.mul_comm] at hdiv
      omega
    unfold roundDiv
    simp only
    rw [if_pos (by omega)]
    exact hq

theorem log2_mul_two_pow {n : Nat} (h : n ≠ 0) (e : Nat) : (n * 2 ^ e).log2 = n.log2 + e := by
  induction e with
  | zero => simp
  | succ e ih =>
    have hne : n * 2 ^ e ≠ 0 := Nat.mul_ne_zero h (Nat.pos_iff_ne_zero.mp (Nat.two_pow_pos e))
    rw [Nat.pow_succ, ← Nat.mul_assoc, Nat.mul_comm _ 2, Nat.log2_two_mul hne, ih]
    rfl

/-- Before its scale reaches 2045 a mantissa lies within the finite ranks, and from 2046
on beyond them; at 2045 it has to be carried. -/
theorem finiteRanks_le_rankOf_iff {a s : Nat} (hlow : 2 ^ (s + 52) ≤ a) (hhigh : a < 2 ^ (s + 53)) :
    finiteRanks ≤ rankOf (roundDiv a (2 ^ s)) s ↔
      2046 ≤ s ∨ s = 2045 ∧ (2 ^ 54 - 1) * 2 ^ s ≤ 2 * a := by
  have hd := Nat.two_pow_pos s
  have hcarry := even_le_roundDiv (k := 2 ^ 52 - 1) (a := a) hd
  have hle : roundDiv a (2 ^ s) ≤ 2 ^ 53 := by
    apply roundDiv_le hd
    rw [← Nat.pow_add, Nat.add_comm 53 s]
    exact Nat.le_of_lt hhigh
  have hge : 2 ^ 52 ≤ roundDiv a (2 ^ s) := by
    have hround := roundDiv_eq_or a (2 ^ s)
    have hq : 2 ^ 52 ≤ a / 2 ^ s := by
      rw [Nat.le_div_iff_mul_le hd, ← Nat.pow_add, Nat.add_comm 52 s]
      exact hlow
    omega
  simp only [finiteRanks, rankOf, blockSize, Nat.pow_eq]
  omega

theorem finiteRanks_le_nearestRank_iff (n : Nat) : finiteRanks ≤ nearestRank n 1 ↔ overflow ≤ n := by
  obtain ⟨e, he, hunits⟩ := unitsPerOne_eq
  obtain ⟨u, hu, hoverflow⟩ := overflow_eq
  have hpos := Nat.two_pow_pos u
  simp only [nearestRank, Nat.div_one, Nat.one_mul, hunits, hoverflow, Nat.pow_eq]
  rcases Nat.eq_zero_or_pos n with rfl | hn
  · rw [Nat.zero_mul, Nat.log2_zero]
    have hround : roundDiv 0 (2 ^ (0 - 52)) ≤ 0 := roundDiv_le (Nat.two_pow_pos _) (Nat.zero_le _)
    simp only [finiteRanks, rankOf, blockSize, Nat.pow_eq]
    omega
  · have hn : n ≠ 0 := Nat.pos_iff_ne_zero.mp hn
    have hlog := log2_mul_two_pow hn e
    have hne : n * 2 ^ e ≠ 0 := Nat.mul_ne_zero hn (Nat.pos_iff_ne_zero.mp (Nat.two_pow_pos e))
    generalize hs : (n * 2 ^ e).log2 - 52 = s
    have hlow : 2 ^ (s + 52) ≤ n * 2 ^ e := (Nat.le_log2 hne).mp (by omega)
    have hhigh : n * 2 ^ e < 2 ^ (s + 53) := (Nat.log2_lt hne).mp (by omega)
    rw [finiteRanks_le_rankOf_iff hlow hhigh]
    rcases Nat.lt_trichotomy n.log2 (53 + u) with hlt | heq | hgt
    · have hbound : n < 2 ^ 53 * 2 ^ u := by
        rw [← Nat.pow_add]
        exact (Nat.log2_lt hn).mp hlt
      omega
    · have hs : s = 2045 ∧ ¬ 2046 ≤ s ∧ s = u + (e + 1) := by omega
      have hunit : 2 * (n * 2 ^ e) = n * 2 ^ (e + 1) := by
        rw [Nat.pow_succ, Nat.mul_left_comm, Nat.mul_comm 2 (2 ^ e)]
      have hsplit : 2 ^ s = 2 ^ u * 2 ^ (e + 1) := by
        rw [← Nat.pow_add, ← hs.2.2]
      rw [hunit, hsplit, ← Nat.mul_assoc, Nat.mul_le_mul_right_iff (Nat.two_pow_pos (e + 1))]
      exact ⟨fun h => (h.resolve_left hs.2.1).2, fun h => Or.inr ⟨hs.1, h⟩⟩
    · have hscale : 2046 ≤ s := by omega
      have hbound : 2 ^ 54 * 2 ^ u ≤ n := by
        rw [← Nat.pow_add]
        exact (Nat.le_log2 hn).mp (by omega)
      have hle : (2 ^ 54 - 1) * 2 ^ u ≤ 2 ^ 54 * 2 ^ u := Nat.mul_le_mul_right _ (Nat.sub_le _ _)
      exact iff_of_true (Or.inl hscale) (Nat.le_trans hle hbound)

theorem ofInt?_eq_none_iff {n : Int} : ofInt? n = none ↔ overflow ≤ n.natAbs := by
  rw [← finiteRanks_le_nearestRank_iff]
  simp only [ofInt?, nearest?]
  split
  · next h => simp [Nat.not_le.mpr h]
  · next h => simp [Nat.not_lt.mp h]

theorem mantissaOf_lt (rank : Nat) : mantissaOf rank < 2 ^ 53 := by
  have hblock : blockSize = 2 ^ 52 := rfl
  have hmod := Nat.mod_lt rank (Nat.two_pow_pos 52)
  unfold mantissaOf
  rw [hblock]
  split <;> omega

/-- The magnitude of a finite number is below the least one that is none. -/
theorem unitsOf_div_lt (rank : Fin finiteRanks) : unitsOf rank / unitsPerOne < overflow := by
  obtain ⟨e, he, hunits⟩ := unitsPerOne_eq
  obtain ⟨u, hu, hoverflow⟩ := overflow_eq
  have hmantissa := mantissaOf_lt rank
  have hscale : scaleOf rank ≤ u + 1 + e := by
    have hrank := rank.isLt
    simp only [scaleOf, finiteRanks, blockSize, Nat.pow_eq] at hrank ⊢
    omega
  have hunit : unitsOf rank ≤ (2 ^ 53 - 1) * 2 ^ (u + 1) * 2 ^ e := by
    calc unitsOf rank = mantissaOf rank * 2 ^ scaleOf rank := rfl
      _ ≤ (2 ^ 53 - 1) * 2 ^ (u + 1 + e) :=
        Nat.mul_le_mul (by omega) (Nat.pow_le_pow_right (by omega) hscale)
      _ = (2 ^ 53 - 1) * 2 ^ (u + 1) * 2 ^ e := by rw [Nat.pow_add, Nat.mul_assoc]
  have hquotient : unitsOf rank / 2 ^ e ≤ (2 ^ 53 - 1) * 2 ^ (u + 1) := by
    rw [Nat.div_le_iff_le_mul_add_pred (Nat.two_pow_pos e), Nat.mul_comm]
    omega
  have hpos := Nat.two_pow_pos u
  rw [Nat.pow_succ] at hquotient
  rw [hunits, hoverflow, Nat.pow_eq]
  omega

theorem whole?_natAbs_lt {x : Number} {n : Int} (h : x.whole? = some n) : n.natAbs < overflow := by
  cases x with
  | nan | infinite => cases h
  | finite negative rank =>
    have hlt := unitsOf_div_lt rank
    simp only [whole?] at h
    split at h
    · simp only [Option.some.injEq] at h
      rw [← h]
      split
      · rwa [Int.natAbs_neg, Int.natAbs_natCast]
      · rwa [Int.natAbs_natCast]
    · cases h

end SnippetTutor.Number
