/-! # Text as a list of characters

Every line, name and stored string is a list of characters, so that each scan is
a recursion on the text itself. Blank characters are the Unicode white space
together with the four information separators.
-/
namespace SnippetTutor

abbrev Text := List Char

namespace Text

/-- What is said of the characters of a text is decided by going over these, and not over all
characters that there are. -/
instance (priority := high) decidableForallMem (p : Char → Prop) [DecidablePred p] (t : Text) :
    Decidable (∀ c ∈ t, p c) :=
  List.decidableBAll p t

/-- Closed intervals of code points, in increasing order. -/
abbrev Intervals := List (Nat × Nat)

/-- The search ends at the first interval that starts beyond the code point. -/
def Intervals.has : Intervals → Nat → Bool
  | [], _ => false
  | (low, high) :: rest, n => low ≤ n && (n ≤ high || has rest n)

def blankPoints : Intervals :=
  [(0x9, 0xd), (0x1c, 0x20), (0x85, 0x85), (0xa0, 0xa0), (0x1680, 0x1680), (0x2000, 0x200a),
    (0x2028, 0x2029), (0x202f, 0x202f), (0x205f, 0x205f), (0x3000, 0x3000)]

def isBlank (c : Char) : Bool := blankPoints.has c.toNat

/-- The information separators are blanks, but not around a written number. -/
def isSeparator (c : Char) : Bool := '\x1c' ≤ c && c ≤ '\x1f'

def startsBlank (t : Text) : Bool := t.head?.any isBlank

def trimLeft (t : Text) : Text := t.dropWhile isBlank

def trimRight (t : Text) : Text := (t.reverse.dropWhile isBlank).reverse

def trim (t : Text) : Text := trimRight (trimLeft t)

def dropFinalNewline (t : Text) : Text := if t.getLast? = some '\n' then t.dropLast else t

def isLetter (c : Char) : Bool := ('a' ≤ c && c ≤ 'z') || ('A' ≤ c && c ≤ 'Z')

/-- Puts `c` before the first piece. -/
def consHead (c : Char) : List Text → List Text
  | [] => [[c]]
  | piece :: rest => (c :: piece) :: rest

/-- The pieces between separators: one more than there are separators. -/
def splitOn (separator : Char) : Text → List Text
  | [] => [[]]
  | c :: rest => if c = separator then [] :: splitOn separator rest
      else consHead c (splitOn separator rest)

def joinWith (separator : Text) (pieces : List Text) : Text := separator.intercalate pieces

def replaceChar (old new : Char) (t : Text) : Text := t.map fun c => if c = old then new else c

def lowerLetter (c : Char) : Char :=
  if 'A' ≤ c && c ≤ 'Z' then Char.ofNat (c.toNat + 32) else c

/-- Decimal digits, most significant first; zero is one digit. -/
def ofNat (n : Nat) : Text := Nat.toDigits 10 n

def ofInt : Int → Text
  | .ofNat n => ofNat n
  | .negSucc n => '-' :: ofNat (n + 1)

/-- Blanks go before a text that is shorter than the width. -/
def padLeft (width : Nat) (t : Text) : Text := List.replicate (width - t.length) ' ' ++ t

@[simp] theorem consHead_ne_nil (c : Char) (pieces : List Text) : consHead c pieces ≠ [] := by
  cases pieces <;> simp [consHead]

@[simp] theorem splitOn_ne_nil (separator : Char) (t : Text) : splitOn separator t ≠ [] := by
  cases t with
  | nil => simp [splitOn]
  | cons c rest => by_cases h : c = separator <;> simp [splitOn, h]

/-- Joining the pieces with their separator gives the text back. -/
theorem join_splitOn (separator : Char) (t : Text) :
    joinWith [separator] (splitOn separator t) = t := by
  induction t with
  | nil => rfl
  | cons c rest ih =>
    by_cases h : c = separator
    · subst h
      simp only [splitOn, ↓reduceIte]
      cases hs : splitOn c rest with
      | nil => simp at hs
      | cons piece more =>
        rw [hs] at ih
        simp only [joinWith, List.intercalate, List.intersperse] at ih ⊢
        simp [ih]
    · simp only [splitOn, if_neg h]
      cases hs : splitOn separator rest with
      | nil => simp at hs
      | cons piece more =>
        rw [hs] at ih
        cases more with
        | nil => simpa [joinWith, consHead, List.intercalate, List.intersperse] using ih
        | cons next more =>
          simpa [joinWith, consHead, List.intercalate, List.intersperse] using ih

end Text

end SnippetTutor
