import SnippetTutor.Json.Basic
import SnippetTutor.Number.Reading

/-! # Tokens of a JSON text

Between strings, white space and punctuation the text consists of words. A word is
a constant or a number; since every JSON value is followed by white space,
punctuation or the end of the text, the longest words are the right ones. Besides
the constants of the standard, the three names of numbers that are not finite count.
-/
namespace SnippetTutor.Json

inductive Token
  | mark (c : Char)
  | text (t : Text)
  | scalar (value : Json)
deriving Inhabited

def isSpace (c : Char) : Bool := c = ' ' || c = '\t' || c = '\n' || c = '\r'

def isMark (c : Char) : Bool := "[]\x7b\x7d,:".toList.contains c

def isWordPart (c : Char) : Bool :=
  Text.isLetter c || (Text.asciiDigit? c).isSome || c = '+' || c = '-' || c = '.'

/-- What a reader bears: how deep arrays and objects that hold something may be nested,
and which numbers are too long for it. -/
structure Limits where
  nesting : Nat
  tooLong : Decimal → Bool

/-- A number has no plus sign, no needless zero in front, and digits on both sides of
its point. Without a point and an exponent it is a whole number. -/
def numberWord? (limits : Limits) (word : Text) : Option Json := do
  let d ← Decimal.read? Text.asciiDigit? word
  if d.sign = some '+' ∨ d.whole = [] ∨ d.fraction = some [] then none
  else if d.whole.head? = some 0 ∧ d.whole.length ≠ 1 then none
  else if limits.tooLong d then none
  else if d.isWhole then some (.int (if d.negative then -(d.digits : Int) else d.digits))
  else some (.number d.value)

def wordValue? (limits : Limits) (word : Text) : Option Json :=
  if word = "true".toList then some (.bool true)
  else if word = "false".toList then some (.bool false)
  else if word = "null".toList then some .null
  else if word = "NaN".toList then some (.number .nan)
  else if word = "Infinity".toList then some (.number (.infinite false))
  else if word = "-Infinity".toList then some (.number (.infinite true))
  else numberWord? limits word

def isHighSurrogate (n : Nat) : Bool := 0xd800 ≤ n && n < 0xdc00

def isLowSurrogate (n : Nat) : Bool := 0xdc00 ≤ n && n < 0xe000

/-- The characters of a sequence of code points, in which a pair of surrogates stands for one
character. A single surrogate stands for none, and the text that holds it cannot be read. Readers
whose texts may hold code points that are no characters keep it and read on; they are at one with
this reader on texts in which surrogates are paired (`SurrogatesPaired`). -/
def charsOf : List Nat → Option Text
  | [] => some []
  | high :: low :: rest =>
    if isHighSurrogate high ∧ isLowSurrogate low then
      (charsOf rest).map (Char.ofNat (0x10000 + (high - 0xd800) * 0x400 + (low - 0xdc00)) :: ·)
    else if isHighSurrogate high ∨ isLowSurrogate high then none
    else (charsOf (low :: rest)).map (Char.ofNat high :: ·)
  | [n] => if isHighSurrogate n ∨ isLowSurrogate n then none else some [Char.ofNat n]

def simpleEscape? : Char → Option Char
  | '"' => some '"'
  | '\\' => some '\\'
  | '/' => some '/'
  | 'b' => some '\x08'
  | 'f' => some '\x0c'
  | 'n' => some '\n'
  | 'r' => some '\r'
  | 't' => some '\t'
  | _ => none

/-- Where the scan stands: between strings with a word that may go on, or inside a
string. What has been gathered is held in reverse. -/
inductive Scan
  | plain (word : Text)
  | quoted (points : List Nat)
  | escaped (points : List Nat)
  | coded (points : List Nat) (digits : List Nat)

/-- Puts the gathered word, if there is one, before the tokens that follow. -/
def endWord (limits : Limits) (word : Text) (following : Option (List Token)) :
    Option (List Token) :=
  if word = [] then following
  else (wordValue? limits word.reverse).bind fun value => following.map (.scalar value :: ·)

def scan (limits : Limits) : Scan → Text → Option (List Token)
  | .plain word, [] => endWord limits word (some [])
  | .plain word, c :: rest =>
    if isWordPart c then scan limits (.plain (c :: word)) rest
    else endWord limits word <|
      if isSpace c then scan limits (.plain []) rest
      else if c = '"' then scan limits (.quoted []) rest
      else if isMark c then (scan limits (.plain []) rest).map (.mark c :: ·)
      else none
  | .quoted points, c :: rest =>
    if c = '"' then
      (charsOf points.reverse).bind fun t => (scan limits (.plain []) rest).map (.text t :: ·)
    else if c = '\\' then scan limits (.escaped points) rest
    else if c.toNat < 0x20 then none
    else scan limits (.quoted (c.toNat :: points)) rest
  | .escaped points, c :: rest =>
    if c = 'u' then scan limits (.coded points []) rest
    else (simpleEscape? c).bind fun e => scan limits (.quoted (e.toNat :: points)) rest
  | .coded points digits, c :: rest =>
    (Text.hexDigit? c).bind fun d =>
      if digits.length = 3 then
        scan limits (.quoted (Text.numberOf 16 (d :: digits).reverse :: points)) rest
      else scan limits (.coded points (d :: digits)) rest
  | _, [] => none

def tokens? (limits : Limits) (t : Text) : Option (List Token) := scan limits (.plain []) t

end SnippetTutor.Json
