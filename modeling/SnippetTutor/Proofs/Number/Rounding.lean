import Mathlib.Algebra.Group.Nat.Defs
import SnippetTutor.Number.Shortest
import SnippetTutor.Proofs.Number.Range

/-! # Rounding to a rank

A quotient is rounded to a given rank as soon as it is nearer to that magnitude than the magnitude
times `2 ^ -54`: no two neighbours are that close. Only the value of the quotient matters, and
far outside the finite range the rank is known without the quotient.
-/
namespace SnippetTutor.Number
variable {a d m c num den rank : Nat}

theorem roundDiv_mul_left (hc : 0 < c) (a d : Nat) : roundDiv (c * a) (c * d) = roundDiv a d := by
  have hdouble : ∀ r, 2 * (c * r) < c * d ↔ 2 * r < d := fun r => by
    rw [Nat.mul_left_comm, Nat.mul_lt_mul_left hc]
  have hhalf : ∀ r, c * d < 2 * (c * r) ↔ d < 2 * r := fun r => by
    rw [Nat.mul_left_comm, Nat.mul_lt_mul_left hc]
  simp only [roundDiv, Nat.mul_div_mul_left a d hc, Nat.mul_mod_mul_left, hdouble, hhalf]

/-- The rank depends on the value of the quotient only. -/
theorem nearestRank_mul_left (hc : 0 < c) (num den : Nat) :
    nearestRank (c * num) (c * den) = nearestRank num den := by
  simp only [nearestRank, Nat.mul_assoc, Nat.mul_div_mul_left _ _ hc, roundDiv_mul_left hc]

theorem roundDiv_of_near (hbelow : 2 * (m * d) < 2 * a + d) (habove : 2 * a < 2 * (m * d) + d) :
    roundDiv a d = m := by
  have hdiv := Nat.div_add_mod a d
  rw [roundDiv]
  rcases Nat.lt_or_ge a (m * d) with hlt | hge
  · have hm : m ≠ 0 := by
      rintro rfl
      omega
    obtain ⟨k, rfl⟩ : ∃ k, m = k + 1 := ⟨m - 1, by omega⟩
    have hsucc : (k + 1) * d = k * d + d := Nat.succ_mul k d
    have hq : a / d = k := Nat.div_eq_of_lt_le (by omega) hlt
    rw [hq, Nat.mul_comm d] at hdiv
    simp only [hq]
    rw [if_neg (by omega), if_pos (by omega)]
  · have hq : a / d = m := Nat.div_eq_of_lt_le hge (by rw [Nat.add_mul, Nat.one_mul]; omega)
    rw [hq, Nat.mul_comm d] at hdiv
    simp only [hq]
    rw [if_pos (by omega)]

/-! ## Mantissa and scale -/

theorem rankOf_mantissaOf (rank : Nat) : rankOf (mantissaOf rank) (scaleOf rank) = rank := by
  have hmod := Nat.div_add_mod rank blockSize
  have hblock : blockSize = 2 ^ 52 := rfl
  simp only [rankOf, mantissaOf, scaleOf, hblock] at *
  split <;> omega

theorem scaleOf_eq_zero_or (rank : Nat) : scaleOf rank = 0 ∨ 2 ^ 52 ≤ mantissaOf rank := by
  have hblock : blockSize = 2 ^ 52 := rfl
  simp only [mantissaOf, scaleOf, hblock]
  split <;> omega

theorem unitsOf_pos (h : 0 < rank) : 0 < unitsOf rank := by
  have hblock : blockSize = 2 ^ 52 := rfl
  refine Nat.mul_pos ?_ (Nat.two_pow_pos _)
  simp only [mantissaOf, hblock]
  split <;> omega

/-- A quotient of units that lies within a block is rounded on the scale of the block. -/
theorem scale_eq {units s : Nat} (hden : 0 < den) (hlow : s = 0 ∨ 2 ^ (s + 52) * den ≤ units)
    (hhigh : units < 2 ^ (s + 53) * den) : (units / den).log2 - 52 = s := by
  have hlt : units / den < 2 ^ (s + 53) := (Nat.div_lt_iff_lt_mul hden).mpr hhigh
  have hle : (units / den).log2 < s + 53 := by
    rcases Nat.eq_zero_or_pos (units / den) with hzero | hpos
    · rw [hzero, Nat.log2_zero]
      omega
    · exact (Nat.log2_lt (Nat.pos_iff_ne_zero.mp hpos)).mpr hlt
  rcases hlow with rfl | hlow
  · omega
  · have hge : 2 ^ (s + 52) ≤ units / den := (Nat.le_div_iff_mul_le hden).mpr hlow
    have hne : units / den ≠ 0 := Nat.pos_iff_ne_zero.mp (Nat.lt_of_lt_of_le (Nat.two_pow_pos _) hge)
    have := (Nat.le_log2 hne).mpr hge
    omega

theorem nearestRank_eq {units s : Nat} (hunits : num * unitsPerOne = units) (hden : 0 < den)
    (hlow : s = 0 ∨ 2 ^ (s + 52) * den ≤ units) (hhigh : units < 2 ^ (s + 53) * den) :
    nearestRank num den = rankOf (roundDiv units (den * 2 ^ s)) s := by
  simp only [nearestRank, hunits, scale_eq hden hlow hhigh, Nat.pow_eq]

theorem two_pow_add_mul (s k den : Nat) : 2 ^ (s + k) * den = 2 ^ k * (2 ^ s * den) := by
  rw [Nat.pow_add, Nat.mul_comm (2 ^ s), Nat.mul_assoc]

/-- Inside a block the neighbours are as far apart as the scale says. -/
theorem nearestRank_in_block {units m s : Nat} (hunits : num * unitsPerOne = units) (hden : 0 < den)
    (hm : m < 2 ^ 53) (hlow : s = 0 ∨ 2 ^ (s + 52) * den ≤ units)
    (hbelow : 2 ^ 54 * (m * (2 ^ s * den)) < 2 ^ 54 * units + m * (2 ^ s * den))
    (habove : 2 ^ 54 * units < 2 ^ 54 * (m * (2 ^ s * den)) + m * (2 ^ s * den)) :
    nearestRank num den = rankOf m s := by
  have hle : m * (2 ^ s * den) ≤ (2 ^ 53 - 1) * (2 ^ s * den) := Nat.mul_le_mul_right _ (by omega)
  have hhigh : units < 2 ^ (s + 53) * den := by
    rw [two_pow_add_mul]
    omega
  rw [nearestRank_eq hunits hden hlow hhigh, Nat.mul_comm den,
    roundDiv_of_near (m := m) (by omega) (by omega)]

/-- Below the first magnitude of a block the neighbours are half as far apart. -/
theorem nearestRank_below_block {units s : Nat} (hunits : num * unitsPerOne = units) (hden : 0 < den)
    (hlt : units < 2 ^ (s + 1 + 52) * den)
    (hbelow : 2 ^ 54 * (2 ^ 52 * (2 ^ (s + 1) * den)) < 2 ^ 54 * units + 2 ^ 52 * (2 ^ (s + 1) * den)) :
    nearestRank num den = rankOf (2 ^ 52) (s + 1) := by
  rw [two_pow_add_mul, two_pow_add_mul] at hlt
  rw [two_pow_add_mul] at hbelow
  rw [nearestRank_eq (s := s) hunits hden (by rw [two_pow_add_mul]; omega) (by rw [two_pow_add_mul]; omega),
    Nat.mul_comm den, roundDiv_of_near (m := 2 ^ 53) (by omega) (by omega)]
  simp only [rankOf, show blockSize = 2 ^ 52 from rfl]
  omega

/-- Whatever differs from a magnitude by less than its `2 ^ 54`th part is rounded to it. -/
theorem nearestRank_of_near (hden : 0 < den)
    (hbelow : 2 ^ 54 * (unitsOf rank * den) < 2 ^ 54 * (num * unitsPerOne) + unitsOf rank * den)
    (habove : 2 ^ 54 * (num * unitsPerOne) < 2 ^ 54 * (unitsOf rank * den) + unitsOf rank * den) :
    nearestRank num den = rank := by
  generalize hunits : num * unitsPerOne = units at *
  have hm := mantissaOf_lt rank
  have hnormal := scaleOf_eq_zero_or rank
  have hrank := rankOf_mantissaOf rank
  rw [show unitsOf rank = mantissaOf rank * 2 ^ scaleOf rank from rfl, Nat.mul_assoc] at hbelow habove
  generalize mantissaOf rank = m at *
  generalize scaleOf rank = s at *
  rw [← hrank]
  by_cases hlow : s = 0 ∨ 2 ^ (s + 52) * den ≤ units
  · exact nearestRank_in_block hunits hden hm hlow hbelow habove
  · obtain ⟨hs, hlt⟩ := not_or.mp hlow
    have hfirst : m = 2 ^ 52 := by
      rcases Nat.eq_or_lt_of_le (hnormal.resolve_left hs) with heq | hgt
      · exact heq.symm
      · have hge : (2 ^ 52 + 1) * (2 ^ s * den) ≤ m * (2 ^ s * den) := Nat.mul_le_mul_right _ hgt
        rw [two_pow_add_mul] at hlt
        omega
    obtain ⟨s, rfl⟩ := Nat.exists_eq_succ_of_ne_zero hs
    rw [hfirst] at hbelow ⊢
    exact nearestRank_below_block hunits hden (Nat.not_le.mp hlt) hbelow

/-! ## Far outside the range -/

theorem two_pow_le_ten_pow (k : Nat) : 2 ^ (3 * k) ≤ 10 ^ k := by
  rw [Nat.pow_mul]
  exact Nat.pow_le_pow_left (by decide) k

theorem finiteRanks_le_nearestRank {k : Nat} (hden : 0 < den) (hk : 400 ≤ k) (h : 10 ^ k * den ≤ num) :
    finiteRanks ≤ nearestRank num den := by
  obtain ⟨e, he, hunits⟩ := unitsPerOne_eq
  rw [Nat.pow_eq] at hunits
  have hquotient : 2 ^ (3 * k + e) ≤ num * unitsPerOne / den := by
    rw [Nat.le_div_iff_mul_le hden, hunits, Nat.pow_add, Nat.mul_right_comm]
    exact Nat.mul_le_mul_right _ (Nat.le_trans (Nat.mul_le_mul_right den (two_pow_le_ten_pow k)) h)
  have hne : num * unitsPerOne / den ≠ 0 :=
    Nat.pos_iff_ne_zero.mp (Nat.lt_of_lt_of_le (Nat.two_pow_pos _) hquotient)
  have hscale := (Nat.le_log2 hne).mpr hquotient
  simp only [nearestRank, rankOf, finiteRanks, show blockSize = 2 ^ 52 from rfl, Nat.pow_eq]
  generalize num * unitsPerOne / den = quotient at *
  omega

theorem nearestRank_eq_zero {k : Nat} (hden : 0 < den) (hk : 400 ≤ k) (h : num * 10 ^ k ≤ den) :
    nearestRank num den = 0 := by
  obtain ⟨e, he, hunits⟩ := unitsPerOne_eq
  rw [Nat.pow_eq] at hunits
  have hsmall : 2 * (num * 2 ^ e) < den := by
    rcases Nat.eq_zero_or_pos num with rfl | hnum
    · omega
    · calc 2 * (num * 2 ^ e) = num * 2 ^ (e + 1) := by rw [Nat.pow_succ, Nat.mul_left_comm, Nat.mul_comm 2]
        _ < num * 2 ^ (3 * k) := (Nat.mul_lt_mul_left hnum).mpr (Nat.pow_lt_pow_right (by decide) (by omega))
        _ ≤ num * 10 ^ k := Nat.mul_le_mul_left num (two_pow_le_ten_pow k)
        _ ≤ den := h
  rw [nearestRank_eq (s := 0) (by rw [hunits]) hden (Or.inl rfl) (by omega), Nat.pow_zero, Nat.mul_one,
    roundDiv_of_near (m := 0) (by omega) (by omega)]
  rfl

theorem nearestRank_zero (hden : 0 < den) : nearestRank 0 den = 0 :=
  nearestRank_eq_zero hden (Nat.le_refl 400) (by rw [Nat.zero_mul]; exact Nat.zero_le den)

/-- The number of a rank; beyond the finite ranks it is an infinity. -/
def ofRank (negative : Bool) (rank : Nat) : Number :=
  if h : rank < finiteRanks then .finite negative ⟨rank, h⟩ else .infinite negative

theorem nearest_eq (negative : Bool) (num den : Nat) :
    nearest negative num den = ofRank negative (nearestRank num den) := by
  unfold nearest nearest? ofRank
  simp only
  split <;> rfl

theorem ofRank_of_le {negative : Bool} (h : finiteRanks ≤ rank) : ofRank negative rank = .infinite negative := by
  rw [ofRank, dif_neg (Nat.not_lt.mpr h)]

theorem length_toDigits_pos (n : Nat) : 0 < (Nat.toDigits 10 n).length := Nat.length_toDigits_pos

/-- The number of digits tells between which powers of ten a number lies. -/
theorem lt_ten_pow_length (n : Nat) : n < 10 ^ (Nat.toDigits 10 n).length :=
  (Nat.length_toDigits_le_iff (by decide) (length_toDigits_pos n)).mp (Nat.le_refl _)

theorem ten_pow_le_of_length {n k : Nat} (hn : 0 < n) (h : k < (Nat.toDigits 10 n).length) : 10 ^ k ≤ n := by
  rcases Nat.eq_zero_or_pos k with rfl | hk
  · rwa [Nat.pow_zero]
  · exact Nat.not_lt.mp fun hlt =>
      Nat.not_le.mpr h ((Nat.length_toDigits_le_iff (by decide) hk).mpr hlt)

/-- Deciding far exponents without the power changes nothing. -/
theorem ofScientific_eq (negative : Bool) (digits : Nat) (power : Int) :
    ofScientific negative digits power = ofRank negative (rankOfCandidate ⟨digits, power⟩) := by
  have hlow := lt_ten_pow_length digits
  have hpos := length_toDigits_pos digits
  have hten : ∀ k, 0 < Nat.pow 10 k := fun k => Nat.pow_pos (by decide)
  simp only [ofScientific, rankOfCandidate, nearest_eq]
  rcases Nat.eq_zero_or_pos digits with rfl | hdigits
  · rw [if_pos rfl, Nat.zero_mul, nearestRank_zero Nat.one_pos, nearestRank_zero (hten _), ite_self]
  rw [if_neg (Nat.pos_iff_ne_zero.mp hdigits)]
  have hhigh := ten_pow_le_of_length hdigits (Nat.sub_lt hpos Nat.one_pos)
  generalize (Nat.toDigits 10 digits).length = size at *
  generalize hexp : power.natAbs = k
  by_cases hlarge : 400 < (size : Int) + power
  · rw [if_pos hlarge]
    split
    · refine (ofRank_of_le (finiteRanks_le_nearestRank (k := size - 1 - k) (hten k) (by omega) ?_)).symm
      rw [Nat.pow_eq, ← Nat.pow_add]
      exact Nat.le_trans (Nat.pow_le_pow_right (by decide) (by omega)) hhigh
    · refine (ofRank_of_le (finiteRanks_le_nearestRank (k := size - 1 + k) Nat.one_pos (by omega) ?_)).symm
      rw [Nat.pow_eq, Nat.mul_one, Nat.pow_add]
      exact Nat.mul_le_mul_right _ hhigh
  · rw [if_neg hlarge]
    by_cases hsmall : (size : Int) + power < -400
    · rw [if_pos hsmall, if_pos (by omega), nearestRank_zero Nat.one_pos,
        nearestRank_eq_zero (k := k - size) (hten k) (by omega)]
      rw [Nat.pow_eq]
      calc digits * 10 ^ (k - size) ≤ 10 ^ size * 10 ^ (k - size) := Nat.mul_le_mul_right _ (Nat.le_of_lt hlow)
        _ = 10 ^ k := by rw [← Nat.pow_add, Nat.add_sub_cancel' (by omega)]
    · rw [if_neg hsmall]
      split <;> rfl

/-! ## Whole numbers -/

theorem unitsOf_zero : unitsOf 0 = 0 := by
  have hblock : 0 < blockSize := Nat.two_pow_pos 52
  rw [unitsOf, mantissaOf, if_pos hblock, Nat.zero_mul]

/-- A magnitude that is whole is the nearest one to itself. -/
theorem nearestRank_whole (h : unitsOf rank % unitsPerOne = 0) : nearestRank (unitsOf rank / unitsPerOne) 1 = rank := by
  rcases Nat.eq_zero_or_pos rank with rfl | hpos
  · rw [unitsOf_zero, Nat.zero_div, nearestRank_zero Nat.one_pos]
  · have hunits := unitsOf_pos hpos
    have hmul := Nat.div_mul_cancel (Nat.dvd_of_mod_eq_zero h)
    apply nearestRank_of_near Nat.one_pos
    · rw [hmul]
      omega
    · rw [hmul]
      omega

/-- A number that is whole is the number for it, unless it is the negative zero. -/
theorem ofInt?_of_whole? {x : Number} {n : Int} (h : x.whole? = some n) (hzero : n = 0 → x.isNegative = false) :
    ofInt? n = some x := by
  cases x with
  | nan | infinite => cases h
  | finite negative rank =>
    simp only [whole?] at h
    split at h
    · next hwhole =>
      have hrank := nearestRank_whole hwhole
      generalize unitsOf rank / unitsPerOne = magnitude at *
      obtain rfl := Option.some.inj h
      have hsign : decide ((if negative then -(magnitude : Int) else magnitude) < 0) = negative := by
        cases negative with
        | true =>
          have hne : (magnitude : Int) ≠ 0 := fun hm => Bool.noConfusion (hzero (by simp [hm]))
          simp only [if_true, decide_eq_true_eq]
          omega
        | false => simp
      have hmagnitude : (if negative then -(magnitude : Int) else magnitude).natAbs = magnitude := by
        split <;> simp
      simp [ofInt?, hsign, hmagnitude, nearest?, hrank]
    · cases h
end SnippetTutor.Number
