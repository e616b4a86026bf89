import SnippetTutor.Number.Shortest
import SnippetTutor.Text.Basic

/-! # Written numbers

The full notation writes the shortest decimal that reads back: positionally, with
at least one digit after the point, where the leading digit stands between the
fourth place after the point and the sixteenth before it, and otherwise with an
exponent of at least two digits. The compact notation drops the point of a whole
number below `10 ^ 16`.
-/
namespace SnippetTutor.Number

/-- The lowest leading exponent that is written positionally. -/
def lowestPositional : Int := -4

/-- The first leading exponent that is no longer written positionally. -/
def positionalLimit : Int := 16

def writePositional (digits : Text) (leading : Int) : Text :=
  if leading < 0 then "0.".toList ++ List.replicate (leading.natAbs - 1) '0' ++ digits
  else
    let places := leading.natAbs + 1
    let whole := digits.take places
    let fraction := digits.drop places
    whole ++ List.replicate (places - digits.length) '0' ++
      '.' :: (if fraction.isEmpty then ['0'] else fraction)

def writeExponent (e : Int) : Text :=
  let digits := Text.ofNat e.natAbs
  (if e < 0 then '-' else '+') :: (List.replicate (2 - digits.length) '0' ++ digits)

def writeScientific (digits : Text) (leading : Int) : Text :=
  digits.take 1 ++ (if digits.length ≤ 1 then [] else '.' :: digits.drop 1) ++
    'e' :: writeExponent leading

def writeMagnitude (rank : Nat) : Text :=
  let c := shortest rank
  let digits := Text.ofNat c.digits
  let leading := c.power + digits.length - 1
  if lowestPositional ≤ leading ∧ leading < positionalLimit then writePositional digits leading
  else writeScientific digits leading

def writeSign (negative : Bool) : Text := if negative then ['-'] else []

/-- The full notation. -/
def write : Number → Text
  | .nan => "nan".toList
  | .infinite negative => writeSign negative ++ "inf".toList
  | .finite negative rank => writeSign negative ++ writeMagnitude rank

/-- The numbers that have no whole part. -/
inductive Unbounded
  | nan
  | infinity
deriving DecidableEq

def Unbounded.message : Unbounded → String
  | .nan => "cannot convert float NaN to integer"
  | .infinity => "cannot convert float infinity to integer"

/-- The bound below which whole numbers are written without a point. -/
def compactLimit : Nat := Nat.pow 10 16

def compact : Number → Except Unbounded Text
  | .nan => .error .nan
  | .infinite _ => .error .infinity
  | .finite negative rank =>
    match whole? (.finite negative rank) with
    | some n => if n.natAbs < compactLimit then .ok (Text.ofInt n)
        else .ok (write (.finite negative rank))
    | none => .ok (write (.finite negative rank))

/-- The compact notation where there is one, and the full one elsewhere. -/
def display (x : Number) : Text :=
  match compact x with
  | .ok t => t
  | .error _ => write x

end SnippetTutor.Number
