import SnippetTutor.Text.Basic

/-! # Decimal digits

The decimal digits of every script (Unicode 14) come in runs of ten, from zero to
nine, so the table holds the zeros alone.
-/
namespace SnippetTutor.Text

def digitZeros : List Nat :=
  [0x30, 0x660, 0x6f0, 0x7c0, 0x966, 0x9e6, 0xa66, 0xae6, 0xb66, 0xbe6, 0xc66, 0xce6, 0xd66,
    0xde6, 0xe50, 0xed0, 0xf20, 0x1040, 0x1090, 0x17e0, 0x1810, 0x1946, 0x19d0, 0x1a80, 0x1a90,
    0x1b50, 0x1bb0, 0x1c40, 0x1c50, 0xa620, 0xa8d0, 0xa900, 0xa9d0, 0xa9f0, 0xaa50, 0xabf0, 0xff10,
    0x104a0, 0x10d30, 0x11066, 0x110f0, 0x11136, 0x111d0, 0x112f0, 0x11450, 0x114d0, 0x11650,
    0x116c0, 0x11730, 0x118e0, 0x11950, 0x11c50, 0x11d50, 0x11da0, 0x16a60, 0x16ac0, 0x16b50,
    0x1d7ce, 0x1d7d8, 0x1d7e2, 0x1d7ec, 0x1d7f6, 0x1e140, 0x1e2f0, 0x1e950, 0x1fbf0]

/-- The value of a decimal digit of any script. -/
def digit? (c : Char) : Option Nat :=
  (digitZeros.find? fun first => first ≤ c.toNat && c.toNat < first + 10).map (c.toNat - ·)

def asciiDigit? (c : Char) : Option Nat :=
  if '0' ≤ c ∧ c ≤ '9' then some (c.toNat - 48) else none

def hexDigit? (c : Char) : Option Nat :=
  if '0' ≤ c ∧ c ≤ '9' then some (c.toNat - 48)
  else if 'a' ≤ c ∧ c ≤ 'f' then some (c.toNat - 87)
  else if 'A' ≤ c ∧ c ≤ 'F' then some (c.toNat - 55)
  else none

/-- The number that a digit sequence writes in the given base. -/
def numberOf (base : Nat) (digits : List Nat) : Nat :=
  digits.foldl (fun n d => base * n + d) 0

/-- An underscore between two digits only groups them. -/
def dropGrouping (digit : Char → Option Nat) : Text → Text
  | a :: '_' :: b :: rest =>
    if (digit a).isSome ∧ (digit b).isSome then a :: dropGrouping digit (b :: rest)
    else a :: '_' :: dropGrouping digit (b :: rest)
  | a :: rest => a :: dropGrouping digit rest
  | [] => []

/-- Whether there is a minus sign, and what follows the sign. -/
def splitSign : Text → Bool × Text
  | '-' :: rest => (true, rest)
  | '+' :: rest => (false, rest)
  | rest => (false, rest)

/-- Longer whole numbers are not read. -/
def maxDigits : Nat := 4300

/-- A whole number with an optional sign, in digits of any script that may be
grouped; blanks around it do not count. -/
def readInt? (t : Text) : Option Int :=
  let (negative, digits) := splitSign (trim t)
  if t.any isSeparator then none
  else match (dropGrouping digit? digits).mapM digit? with
    | none | some [] => none
    | some values =>
      let n : Int := numberOf 10 values
      if values.length ≤ maxDigits then some (if negative then -n else n) else none

end SnippetTutor.Text
