import SnippetTutor.Proofs.Number.Rounding

/-! # The shortest decimal reads back

On the grid of seventeen digits the neighbours of a magnitude are so close that the nearer one is
rounded to the magnitude. So the search comes to an end, and what it finds reads back, with or
without the zeros at its end.
-/
namespace SnippetTutor.Number
variable {rank : Nat} {power : Int} {c : Candidate}

-- No proof may write the unit out.
attribute [local irreducible] unitsPerOne

theorem unitsPerOne_pos : 0 < unitsPerOne := by
  obtain ⟨e, -, hunits⟩ := unitsPerOne_eq
  rw [hunits]
  exact Nat.two_pow_pos e

/-- The leading digit of a magnitude stands where its exponent says. -/
theorem exists_leadingExponent (h : 0 < rank) : ∃ base k : Nat, base = 400 ∧
    leadingExponent rank = (k : Int) - base ∧ 10 ^ k * unitsPerOne ≤ unitsOf rank * 10 ^ base := by
  obtain ⟨base, hbase⟩ : ∃ base : Nat, base = 400 := ⟨400, rfl⟩
  have hleading : leadingExponent rank =
      ((Nat.toDigits 10 (unitsOf rank * Nat.pow 10 base / unitsPerOne)).length : Int) - 401 := by
    unfold leadingExponent
    rw [← hbase]
  obtain ⟨e, he, hunits⟩ := unitsPerOne_eq
  rw [Nat.pow_eq] at hleading hunits
  have hle : unitsPerOne ≤ unitsOf rank * 10 ^ base := by
    calc unitsPerOne = 2 ^ e := hunits
      _ ≤ 2 ^ (3 * base) := Nat.pow_le_pow_right (by decide) (by omega)
      _ ≤ 10 ^ base := two_pow_le_ten_pow base
      _ ≤ unitsOf rank * 10 ^ base := Nat.le_mul_of_pos_left _ (unitsOf_pos h)
  have hlength := length_toDigits_pos (unitsOf rank * 10 ^ base / unitsPerOne)
  refine ⟨base, (Nat.toDigits 10 (unitsOf rank * 10 ^ base / unitsPerOne)).length - 1, hbase, by omega, ?_⟩
  rw [← Nat.le_div_iff_mul_le unitsPerOne_pos]
  exact ten_pow_le_of_length (Nat.div_pos hle unitsPerOne_pos) (by omega)

theorem roundDiv_near {a d : Nat} (hd : 0 < d) :
    2 * (roundDiv a d * d) ≤ 2 * a + d ∧ 2 * a ≤ 2 * (roundDiv a d * d) + d := by
  have hdiv := Nat.div_add_mod a d
  have hmod := Nat.mod_lt a hd
  have hsucc : (a / d + 1) * d = a / d * d + d := Nat.succ_mul _ _
  rw [Nat.mul_comm d] at hdiv
  unfold roundDiv
  simp only
  split
  · omega
  · split
    · omega
    · split <;> omega

/-- On a fine grid the nearer neighbour of a magnitude is rounded to it. -/
theorem rankOfCandidate_nearer (h : 2 ^ 53 * (gridQuotient rank power).2 < (gridQuotient rank power).1) :
    rankOfCandidate ⟨roundDiv (gridQuotient rank power).1 (gridQuotient rank power).2, power⟩ = rank := by
  have hten : 0 < 10 ^ power.natAbs := Nat.pow_pos (by decide)
  simp only [gridQuotient, rankOfCandidate, Nat.pow_eq] at *
  split at h
  · next hneg =>
    rw [if_pos hneg, if_pos hneg]
    obtain ⟨hbelow, habove⟩ := roundDiv_near (a := unitsOf rank * 10 ^ power.natAbs) unitsPerOne_pos
    simp only at h hbelow habove ⊢
    exact nearestRank_of_near hten (by omega) (by omega)
  · next hneg =>
    rw [if_neg hneg, if_neg hneg]
    have hgrid := Nat.mul_pos unitsPerOne_pos hten
    obtain ⟨hbelow, habove⟩ := roundDiv_near (a := unitsOf rank) hgrid
    simp only at h hbelow habove ⊢
    refine nearestRank_of_near Nat.one_pos ?_ ?_ <;>
      rw [Nat.mul_one, Nat.mul_assoc, Nat.mul_comm (10 ^ power.natAbs)] <;> omega

/-- The grid of seventeen digits is fine enough. -/
theorem gridQuotient_seventeen (h : 0 < rank) :
    2 ^ 53 * (gridQuotient rank (leadingExponent rank - 16)).2 <
      (gridQuotient rank (leadingExponent rank - 16)).1 := by
  obtain ⟨base, k, hbase, hleading, hk⟩ := exists_leadingExponent h
  have hunits := unitsPerOne_pos
  have hsixteen : 2 ^ 53 * unitsPerOne < 10 ^ 16 * unitsPerOne := (Nat.mul_lt_mul_right hunits).mpr (by decide)
  simp only [gridQuotient, hleading, Nat.pow_eq]
  split
  · obtain ⟨j, hj⟩ : ∃ j : Nat, (k : Int) - base - 16 = -j ∧ base + 16 = j + k :=
      ⟨base + 16 - k, by omega, by omega⟩
    rw [hj.1, Int.natAbs_neg, Int.natAbs_natCast]
    refine Nat.lt_of_lt_of_le hsixteen (Nat.le_of_mul_le_mul_left ?_ (Nat.pow_pos (n := k) (by decide : 0 < 10)))
    calc 10 ^ k * (10 ^ 16 * unitsPerOne) = 10 ^ 16 * (10 ^ k * unitsPerOne) := Nat.mul_left_comm _ _ _
      _ ≤ 10 ^ 16 * (unitsOf rank * 10 ^ base) := Nat.mul_le_mul_left _ hk
      _ = unitsOf rank * 10 ^ (base + 16) := by rw [Nat.mul_left_comm, Nat.mul_comm (10 ^ 16), ← Nat.pow_add]
      _ = 10 ^ k * (unitsOf rank * 10 ^ j) := by rw [hj.2, Nat.add_comm j, Nat.pow_add, Nat.mul_left_comm]
  · obtain ⟨j, hj⟩ : ∃ j : Nat, (k : Int) - base - 16 = j ∧ k = j + (base + 16) :=
      ⟨k - base - 16, by omega, by omega⟩
    rw [hj.1, Int.natAbs_natCast]
    have hgrid : 2 ^ 53 * (unitsPerOne * 10 ^ j) < 10 ^ 16 * (unitsPerOne * 10 ^ j) :=
      (Nat.mul_lt_mul_right (Nat.mul_pos hunits (Nat.pow_pos (by decide)))).mpr (by decide)
    refine Nat.lt_of_lt_of_le hgrid (Nat.le_of_mul_le_mul_right ?_ (Nat.pow_pos (n := base) (by decide : 0 < 10)))
    calc 10 ^ 16 * (unitsPerOne * 10 ^ j) * 10 ^ base = 10 ^ k * unitsPerOne := by
          rw [hj.2, Nat.pow_add, Nat.pow_add]
          ac_rfl
      _ ≤ unitsOf rank * 10 ^ base := hk

theorem onGrid?_eq (rank : Nat) (power : Int) : onGrid? rank power =
    let num := (gridQuotient rank power).1
    let den := (gridQuotient rank power).2
    if rankOfCandidate ⟨roundDiv num den, power⟩ = rank then some ⟨roundDiv num den, power⟩
    else if rankOfCandidate ⟨num / den, power⟩ = rank then some ⟨num / den, power⟩
    else if rankOfCandidate ⟨num / den + 1, power⟩ = rank then some ⟨num / den + 1, power⟩
    else none := by
  unfold onGrid?
  generalize gridQuotient rank power = quotient
  rfl

theorem rankOfCandidate_of_onGrid? (h : onGrid? rank power = some c) : rankOfCandidate c = rank := by
  rw [onGrid?_eq] at h
  simp only at h
  split at h
  · next hnearer => exact Option.some.inj h ▸ hnearer
  · split at h
    · next hbelow => exact Option.some.inj h ▸ hbelow
    · split at h
      · next habove => exact Option.some.inj h ▸ habove
      · cases h

theorem exists_onGrid? (h : 0 < rank) : ∃ c, onGrid? rank (leadingExponent rank - 16) = some c := by
  rw [onGrid?_eq]
  simp only
  rw [if_pos (rankOfCandidate_nearer (gridQuotient_seventeen h))]
  exact ⟨_, rfl⟩

/-- A zero at the end of the digits may go into the power. -/
theorem rankOfCandidate_dropZero {digits : Nat} (h : digits % 10 = 0) (power : Int) :
    rankOfCandidate ⟨digits / 10, power + 1⟩ = rankOfCandidate ⟨digits, power⟩ := by
  obtain ⟨q, rfl⟩ := Nat.dvd_of_mod_eq_zero h
  rw [Nat.mul_div_cancel_left q (by decide)]
  simp only [rankOfCandidate, Nat.pow_eq]
  by_cases hneg : power < 0
  · obtain ⟨k, rfl⟩ : ∃ k : Nat, power = -(k + 1 : Nat) := ⟨power.natAbs - 1, by omega⟩
    have hpower : (-(k + 1 : Nat) : Int).natAbs = k + 1 := by omega
    rw [if_pos hneg, hpower, Nat.pow_succ, Nat.mul_comm _ 10, nearestRank_mul_left (by decide)]
    cases k with
    | zero => rw [if_neg (by decide), show (-(0 + 1 : Nat) + 1 : Int).natAbs = 0 by decide, Nat.pow_zero, Nat.mul_one]
    | succ k => rw [if_pos (by omega), show (-(k + 1 + 1 : Nat) + 1 : Int).natAbs = k + 1 by omega]
  · have hpower : (power + 1).natAbs = power.natAbs + 1 := by omega
    rw [if_neg hneg, if_neg (by omega), hpower, Nat.pow_succ, Nat.mul_comm _ 10, Nat.mul_left_comm, Nat.mul_assoc]

theorem rankOfCandidate_dropZeros (n : Nat) (c : Candidate) :
    rankOfCandidate (dropZeros n c) = rankOfCandidate c := by
  induction n generalizing c with
  | zero => rfl
  | succ n ih =>
    rw [dropZeros]
    split
    · next h => rw [ih, rankOfCandidate_dropZero h.1]
    · rfl

/-- The decimal that is written reads back. -/
theorem rankOfCandidate_shortest (rank : Nat) : rankOfCandidate (shortest rank) = rank := by
  unfold shortest
  split
  · next hzero =>
    subst hzero
    rw [rankOfCandidate, if_neg (by decide), Nat.zero_mul, nearestRank_zero Nat.one_pos]
  · next hne =>
    simp only
    rw [rankOfCandidate_dropZeros]
    cases hfound : (List.range 17).findSome? fun more : Nat => onGrid? rank (leadingExponent rank - more) with
    | none =>
      obtain ⟨c, hc⟩ := exists_onGrid? (Nat.pos_of_ne_zero hne)
      have hnone := List.findSome?_eq_none_iff.mp hfound 16 (by decide)
      cases hc.symm.trans hnone
    | some c =>
      obtain ⟨more, -, hmore⟩ := List.exists_of_findSome?_eq_some hfound
      exact rankOfCandidate_of_onGrid? hmore

/-- Only zero has no digit but zero. -/
theorem shortest_digits_pos (h : 0 < rank) : 0 < (shortest rank).digits := by
  have hback := rankOfCandidate_shortest rank
  rcases Nat.eq_zero_or_pos (shortest rank).digits with hzero | hpos
  · unfold rankOfCandidate at hback
    have hten : 0 < Nat.pow 10 (shortest rank).power.natAbs := Nat.pow_pos (by decide)
    rw [hzero, Nat.zero_mul, nearestRank_zero Nat.one_pos, nearestRank_zero hten, ite_self] at hback
    omega
  · exact hpos

end SnippetTutor.Number
