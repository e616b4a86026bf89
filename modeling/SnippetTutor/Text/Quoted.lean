import SnippetTutor.Text.Basic
import SnippetTutor.Text.Printable

/-! # Quoted display of a text

The quote is the single one, unless the text holds a single quote and no double
one. The quote itself and the backslash are escaped, and so is every character
that is not printable: by a letter, or by two, four or eight hex digits.
-/
namespace SnippetTutor.Text

def hexDigits (width n : Nat) : Text :=
  let digits := Nat.toDigits 16 n
  List.replicate (width - digits.length) '0' ++ digits

def escapePoint (n : Nat) : Text :=
  if n < 0x100 then '\\' :: 'x' :: hexDigits 2 n
  else if n < 0x10000 then '\\' :: 'u' :: hexDigits 4 n
  else '\\' :: 'U' :: hexDigits 8 n

def escapeChar (quote c : Char) : Text :=
  if c = quote ∨ c = '\\' then ['\\', c]
  else if c = '\n' then ['\\', 'n']
  else if c = '\r' then ['\\', 'r']
  else if c = '\t' then ['\\', 't']
  else if isPrintable c then [c]
  else escapePoint c.toNat

def displayQuote (t : Text) : Char :=
  if '\'' ∈ t ∧ '"' ∉ t then '"' else '\''

def quoted (t : Text) : Text :=
  let quote := displayQuote t
  quote :: t.flatMap (escapeChar quote) ++ [quote]

end SnippetTutor.Text
