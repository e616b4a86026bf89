import SnippetTutor.Json.Reader
import SnippetTutor.Lesson.Basic
import SnippetTutor.Lesson.Issue

/-! # Reading a lesson

All issues of a document are collected, in the order of the fields. Texts are never
made from other values, but a line number may be written as a number without a
fraction, as a boolean, or as a text.
-/
namespace SnippetTutor

/-- A checked part of a document: its value, or everything that is wrong with it. -/
abbrev Checked (α : Type) := Except (List Issue) α

namespace Checked

variable {α β : Type}

def fail (kind : Issue.Kind) : Checked α := .error [⟨kind, []⟩]

def under (segment : Issue.Segment) (c : Checked α) : Checked α :=
  c.mapError (·.map (Issue.under segment))

/-- Applies a checked function; the issues of both sides count. -/
def apply (f : Checked (α → β)) (c : Checked α) : Checked β :=
  match f, c with
  | .ok g, .ok a => .ok (g a)
  | .error is, .ok _ => .error is
  | .ok _, .error js => .error js
  | .error is, .error js => .error (is ++ js)

def all : List (Checked α) → Checked (List α)
  | [] => .ok []
  | c :: rest => apply (c.map List.cons) (all rest)

end Checked

namespace Lesson

/-- Zeros in front are dropped, with underscores among them, except for the last of
these characters before a point or before the end. -/
def dropLeadingZeros (t : Text) : Text :=
  if t.head? = some '0' then
    let filler := t.takeWhile fun c => c = '0' ∨ c = '_'
    let rest := t.dropWhile fun c => c = '0' ∨ c = '_'
    if rest.isEmpty ∨ rest.head? = some '.' then filler.getLast?.toList ++ rest else rest
  else t

/-- A point with zeros and nothing else after it is dropped. -/
def dropZeroFraction (t : Text) : Text :=
  let fraction := (t.dropWhile (· ≠ '.')).drop 1
  if fraction ≠ [] ∧ fraction.all (· == '0') then t.takeWhile (· ≠ '.') else t

/-- Single underscores inside a number are dropped. -/
def dropUnderscores (t : Text) : Text :=
  let pieces := Text.splitOn '_' t
  if pieces.any (·.isEmpty) then t else pieces.flatten

/-- A whole number in a text: it may have a sign, zeros in front, underscores inside,
and a fraction of zeros. A minus sign counts towards its length. -/
def looseInteger? (t : Text) : Option Int :=
  let (negative, unsigned) := Text.splitSign (Text.trim t)
  if t.any Text.isSeparator then none
  else match (dropUnderscores (dropZeroFraction (dropLeadingZeros unsigned))).mapM Text.asciiDigit? with
    | none | some [] => none
    | some values =>
      let n : Int := Text.numberOf 10 values
      if values.length + (if negative then 1 else 0) ≤ Text.maxDigits then
        some (if negative then -n else n)
      else none

/-- Numbers with a point are read as whole numbers only within 64 bits. -/
def wordLimit : Nat := Nat.pow 2 63

def checkInteger : Json → Checked Int
  | .int n => .ok n
  | .bool b => .ok (if b then 1 else 0)
  | .number x => match x with
    | .finite _ _ => match x.whole? with
      | some n => if n.natAbs < wordLimit then .ok n else .fail .oversized
      | none => .fail .fractional
    | _ => .fail .notFinite
  | .text t => match looseInteger? t with
    | some n => .ok n
    | none => .fail .unreadableInteger
  | _ => .fail .notInteger

def checkLine (j : Json) : Checked Int := do
  let n ← checkInteger j
  if 1 ≤ n then .ok n else .fail .belowOne

def checkText : Json → Checked Text
  | .text t => .ok t
  | _ => .fail .notText

def checkOptionalText : Json → Checked (Option Text)
  | .null => .ok none
  | .text t => .ok (some t)
  | _ => .fail .notText

def checkVariables : Json → Checked (Fields Json)
  | .object fields => .ok fields
  | _ => .fail .notRecord

/-- Checks the field under a key; where the key is absent the default counts, and
without a default the field is missing. -/
def checkField {α : Type} (fields : Fields Json) (key : String) (default? : Option α)
    (check : Json → Checked α) : Checked α :=
  Checked.under (.key key.toList) <| match Fields.get? fields key.toList with
    | some j => check j
    | none => match default? with
      | some value => .ok value
      | none => .fail .missing

def checkStep : Json → Checked AuthoredStep
  | .object fields =>
    .apply (.apply (.apply (.map AuthoredStep.mk
      (checkField fields "line" none checkLine))
      (checkField fields "output" (some none) checkOptionalText))
      (checkField fields "variables" (some []) checkVariables))
      (checkField fields "explanation" (some none) checkOptionalText)
  | _ => .fail .notObject

def checkSteps : Json → Checked (Option (List AuthoredStep))
  | .null => .ok none
  | .array items =>
    (Checked.all (items.zipIdx.map fun (item, n) =>
      Checked.under (.position n) (checkStep item))).map some
  | _ => .fail .notList

/-- The code goes by two names, of which the first one wins. -/
def codeKey (fields : Fields Json) : String :=
  if Fields.has fields "initialCode".toList then "initialCode"
  else if Fields.has fields "initial_code".toList then "initial_code"
  else "initialCode"

def check : Json → Checked Lesson
  | .object fields =>
    .apply (.map Lesson.mk (checkField fields (codeKey fields) none checkText))
      (checkField fields "steps" (some none) checkSteps)
  | _ => .fail .notObject

/-- In a number the sign and the digits before the point count towards its length. -/
def documentLimits : Json.Limits where
  nesting := 200
  tooLong d := decide (Text.maxDigits < d.sign.toList.length + d.whole.length)

def read (t : Text) : Checked Lesson :=
  match Json.read? documentLimits t with
  | none => .fail .notJson
  | some j => check j

end Lesson

end SnippetTutor
