/-! # Binary numbers of double precision

The finite magnitudes are numbered in increasing order by their rank, starting
with zero. Ranks come in blocks of `2 ^ 52`: in the first block neighbours differ
by one unit, `2 ^ -1074`, and each later block doubles the distance. The block
that would be numbered 2047 holds no finite magnitude.
-/
namespace SnippetTutor

/-- The number of finite magnitudes. -/
def finiteRanks : Nat := 2047 * Nat.pow 2 52

inductive Number
  | nan
  | infinite (negative : Bool)
  | finite (negative : Bool) (rank : Fin finiteRanks)
deriving DecidableEq, Inhabited

namespace Number

def blockSize : Nat := Nat.pow 2 52

/-- How many units make one. -/
def unitsPerOne : Nat := Nat.pow 2 1074

/-- The first two blocks share the distance of one unit. -/
def scaleOf (rank : Nat) : Nat := rank / blockSize - 1

def mantissaOf (rank : Nat) : Nat :=
  if rank < blockSize then rank else blockSize + rank % blockSize

/-- The magnitude in units. -/
def unitsOf (rank : Nat) : Nat := mantissaOf rank * Nat.pow 2 (scaleOf rank)

/-- The rank of a mantissa at a scale; a mantissa of `2 ^ 53` carries into the
next block by itself. -/
def rankOf (mantissa scale : Nat) : Nat := scale * blockSize + mantissa

/-- Division to the nearest whole number, a half going to the even neighbour. -/
def roundDiv (num den : Nat) : Nat :=
  let q := num / den
  let r := num % den
  if 2 * r < den then q
  else if den < 2 * r then q + 1
  else if q % 2 = 0 then q else q + 1

/-- The rank nearest to a quotient of whole numbers. It may lie beyond the finite
ranks, and then the quotient overflows. -/
def nearestRank (num den : Nat) : Nat :=
  let units := num * unitsPerOne
  let scale := (units / den).log2 - 52
  rankOf (roundDiv units (den * Nat.pow 2 scale)) scale

/-- The nearest finite number, or none where the magnitude is too large. -/
def nearest? (negative : Bool) (num den : Nat) : Option Number :=
  let rank := nearestRank num den
  if h : rank < finiteRanks then some (.finite negative ⟨rank, h⟩) else none

def nearest (negative : Bool) (num den : Nat) : Number :=
  (nearest? negative num den).getD (.infinite negative)

/-- A whole number as a number, none where it is too large. -/
def ofInt? (n : Int) : Option Number := nearest? (n < 0) n.natAbs 1

/-- The number `digits · 10 ^ exponent`. Exponents far outside the range are decided
without forming the power. -/
def ofScientific (negative : Bool) (digits : Nat) (exponent : Int) : Number :=
  let size : Int := (Nat.toDigits 10 digits).length + exponent
  if digits = 0 then nearest negative 0 1
  else if 400 < size then .infinite negative
  else if size < -400 then nearest negative 0 1
  else if exponent < 0 then nearest negative digits (Nat.pow 10 exponent.natAbs)
  else nearest negative (digits * Nat.pow 10 exponent.natAbs) 1

def isNegative : Number → Bool
  | .nan => false
  | .infinite negative => negative
  | .finite negative _ => negative

/-- The whole number that a finite number is, if it is one. -/
def whole? : Number → Option Int
  | .finite negative rank =>
    if unitsOf rank % unitsPerOne = 0 then
      let n : Int := (unitsOf rank / unitsPerOne : Nat)
      some (if negative then -n else n)
    else none
  | _ => none

/-- Numeric equality: the two zeros are equal, and nothing equals a nan. -/
def equal : Number → Number → Bool
  | .infinite a, .infinite b => a == b
  | .finite a x, .finite b y => x == y && (a == b || x.val == 0)
  | _, _ => false

def one : Number := nearest false 1 1

def zero : Number := nearest false 0 1

end Number

end SnippetTutor
