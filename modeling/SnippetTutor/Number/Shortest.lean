import SnippetTutor.Number.Basic

/-! # The shortest decimal of a number

Of all decimals that read back as a given finite magnitude, the shortest one is
taken, and of several shortest ones the nearest to the magnitude. On the grid of
decimals with a given number of digits only the two neighbours of the magnitude
can be nearest, so two candidates are tried on each grid.
-/
namespace SnippetTutor.Number

/-- A decimal `digits · 10 ^ power`. -/
structure Candidate where
  digits : Nat
  power : Int
deriving DecidableEq, Inhabited

def rankOfCandidate (c : Candidate) : Nat :=
  if c.power < 0 then nearestRank c.digits (Nat.pow 10 c.power.natAbs)
  else nearestRank (c.digits * Nat.pow 10 c.power.natAbs) 1

/-- The decimal exponent of the leading digit of a magnitude that is not zero. -/
def leadingExponent (rank : Nat) : Int :=
  ((Nat.toDigits 10 (unitsOf rank * Nat.pow 10 400 / unitsPerOne)).length : Int) - 401

/-- The magnitude in units of the grid, as a quotient. -/
def gridQuotient (rank : Nat) (power : Int) : Nat × Nat :=
  if power < 0 then (unitsOf rank * Nat.pow 10 power.natAbs, unitsPerOne)
  else (unitsOf rank, unitsPerOne * Nat.pow 10 power.natAbs)

/-- The better neighbour on the grid that reads back. A magnitude half way between
two neighbours that both read back takes the even one. -/
def onGrid? (rank : Nat) (power : Int) : Option Candidate :=
  let (num, den) := gridQuotient rank power
  let below : Candidate := ⟨num / den, power⟩
  let above : Candidate := ⟨num / den + 1, power⟩
  let nearer : Candidate := ⟨roundDiv num den, power⟩
  if rankOfCandidate nearer = rank then some nearer
  else if rankOfCandidate below = rank then some below
  else if rankOfCandidate above = rank then some above
  else none

/-- Zeros at the end of the digits go into the power. -/
def dropZeros : Nat → Candidate → Candidate
  | 0, c => c
  | n + 1, c => if c.digits % 10 = 0 ∧ c.digits ≠ 0 then dropZeros n ⟨c.digits / 10, c.power + 1⟩ else c

/-- Seventeen digits tell any two magnitudes apart. -/
def shortest (rank : Nat) : Candidate :=
  if rank = 0 then ⟨0, 0⟩
  else
    let leading := leadingExponent rank
    let found := (List.range 17).findSome? fun (more : Nat) => onGrid? rank (leading - more)
    dropZeros 17 (found.getD ⟨0, 0⟩)

end SnippetTutor.Number
