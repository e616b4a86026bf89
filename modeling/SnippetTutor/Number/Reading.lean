import SnippetTutor.Number.Basic
import SnippetTutor.Text.Digit

/-! # Written decimals

A decimal is an optional sign, digits with an optional point, and an optional
exponent. What a reader admits beyond that (which digits, whether a side of the
point may be empty) it decides on the parts.
-/
namespace SnippetTutor

/-- The parts of a written decimal; `fraction` is none where there is no point, and
`exponent` is none where there is no exponent. -/
structure Decimal where
  sign : Option Char
  whole : List Nat
  fraction : Option (List Nat)
  exponent : Option Int
deriving DecidableEq, Inhabited

namespace Decimal

/-- The digits in front of a text, and the rest. -/
def digitsOf (digit : Char → Option Nat) : Text → List Nat × Text
  | [] => ([], [])
  | c :: rest => match digit c with
    | none => ([], c :: rest)
    | some d => let (ds, more) := digitsOf digit rest; (d :: ds, more)

def signOf : Text → Option Char × Text
  | '+' :: rest => (some '+', rest)
  | '-' :: rest => (some '-', rest)
  | rest => (none, rest)

def fractionOf (digit : Char → Option Nat) : Text → Option (List Nat) × Text
  | '.' :: rest => let (ds, more) := digitsOf digit rest; (some ds, more)
  | rest => (none, rest)

/-- The exponent at the end of a decimal: none if the text is no exponent. -/
def exponentOf (digit : Char → Option Nat) : Text → Option (Option Int)
  | [] => some none
  | e :: rest =>
    if e = 'e' ∨ e = 'E' then
      match signOf rest with
      | (sign, digits) => match digitsOf digit digits with
        | (d :: ds, []) =>
          let n : Int := Text.numberOf 10 (d :: ds)
          some (some (if sign = some '-' then -n else n))
        | _ => none
    else none

def read? (digit : Char → Option Nat) (t : Text) : Option Decimal :=
  let (sign, unsigned) := signOf t
  let (whole, afterWhole) := digitsOf digit unsigned
  let (fraction, afterFraction) := fractionOf digit afterWhole
  (exponentOf digit afterFraction).map fun exponent => ⟨sign, whole, fraction, exponent⟩

def negative (d : Decimal) : Bool := d.sign == some '-'

/-- All digits as one whole number, the point left out. -/
def digits (d : Decimal) : Nat := Text.numberOf 10 (d.whole ++ d.fraction.getD [])

/-- The power of ten that the digits count in. -/
def power (d : Decimal) : Int := d.exponent.getD 0 - (d.fraction.getD []).length

def value (d : Decimal) : Number := .ofScientific d.negative d.digits d.power

/-- Neither a point nor an exponent is written. -/
def isWhole (d : Decimal) : Bool := d.fraction.isNone && d.exponent.isNone

/-- A digit stands on at least one side of the point. -/
def hasDigits (d : Decimal) : Bool := !(d.whole ++ d.fraction.getD []).isEmpty

end Decimal

namespace Number

/-- A number token: a decimal in digits of any script, with a digit on at least one
side of its point. -/
def ofToken? (t : Text) : Option Number :=
  ((Decimal.read? Text.digit? t).filter Decimal.hasDigits).map Decimal.value

/-- A number in free form: a number token whose digits may be grouped, or the name
of an infinity or of a nan, in any case of letters and with blanks around it. -/
def read? (t : Text) : Option Number :=
  let (sign, unsigned) := Decimal.signOf (Text.trim t)
  let name := unsigned.map Text.lowerLetter
  if t.any Text.isSeparator then none
  else if name = "inf".toList ∨ name = "infinity".toList then some (.infinite (sign == some '-'))
  else if name = "nan".toList then some .nan
  else ofToken? (Text.dropGrouping Text.digit? (Text.trim t))

end Number

end SnippetTutor
