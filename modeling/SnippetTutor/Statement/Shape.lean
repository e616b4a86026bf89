import SnippetTutor.Text.WordChar

/-! # Shapes of a statement

The shape of a trimmed text is the first of five forms that it has: the header of a
definition, an assignment, a print call, a method call, or a plain call. The parts
between the fixed marks are taken as they stand, apart from blanks around them.
-/
namespace SnippetTutor

inductive Shape
  | header (name params : Text)
  | assignment (name expr : Text)
  | print (argument : Text)
  | method (object action arguments : Text)
  | call (name arguments : Text)
  | unrecognized
deriving DecidableEq, Inhabited

namespace Shape

/-- A name at the front of a text, and the rest. -/
def nameAt? : Text → Option (Text × Text)
  | [] => none
  | c :: rest =>
    if Text.isNameStart c then
      some (c :: rest.takeWhile Text.isWordChar, rest.dropWhile Text.isWordChar)
    else none

/-- What stands between a parenthesis at the front and the last one at the end. It
may hold anything but a line feed. -/
def enclosed? : Text → Option Text
  | '(' :: rest =>
    let body := Text.trimRight rest
    if body.getLast? = some ')' ∧ '\n' ∉ body.dropLast then some body.dropLast else none
  | _ => none

/-- The argument text of a call, given what follows the name. -/
def arguments? (t : Text) : Option Text := enclosed? (Text.trimLeft t)

/-- The right-hand side of an assignment, given what follows the sign: it is not
empty and fills one line, before which only blanks may stand. -/
def expression? (t : Text) : Option Text :=
  if t.head? = some '=' then none
  else match (Text.splitOn '\n' (Text.dropFinalNewline t)).reverse with
    | line :: before =>
      if line ≠ [] ∧ before.all (·.all Text.isBlank) then some (Text.trim t) else none
    | [] => none

def header? (t : Text) : Option Shape := do
  let rest ← "def".toList.isPrefixOf? t
  if Text.startsBlank rest then
    let (name, tail) ← nameAt? (Text.trimLeft rest)
    let tail := Text.trimRight tail
    if tail.getLast? = some ':' then
      (arguments? tail.dropLast).map fun params => .header name (Text.trim params)
    else none
  else none

def assignment? (t : Text) : Option Shape := do
  let (name, tail) ← nameAt? t
  match Text.trimLeft tail with
  | '=' :: expr => (expression? expr).map (.assignment name)
  | _ => none

def print? (t : Text) : Option Shape := do
  let rest ← "print".toList.isPrefixOf? t
  (arguments? rest).map fun argument => .print (Text.trim argument)

/-- The object, the action and the untrimmed argument text of a method call. -/
def methodParts? (t : Text) : Option (Text × Text × Text) := do
  let (object, tail) ← nameAt? t
  match tail with
  | '.' :: rest =>
    let (action, tail) ← nameAt? rest
    (arguments? tail).map fun arguments => (object, action, arguments)
  | _ => none

def method? (t : Text) : Option Shape :=
  (methodParts? t).map fun (object, action, arguments) =>
    .method object action (Text.trim arguments)

def call? (t : Text) : Option Shape := do
  let (name, tail) ← nameAt? t
  (arguments? tail).map fun arguments => .call name (Text.trim arguments)

def ofText (t : Text) : Shape :=
  (header? t <|> assignment? t <|> print? t <|> method? t <|> call? t).getD .unrecognized

/-- The parts in the order in which they are written. -/
def parts : Shape → List Text
  | .header name params => [name, params]
  | .assignment name expr => [name, expr]
  | .print argument => [argument]
  | .method object action arguments => [object, action, arguments]
  | .call name arguments => [name, arguments]
  | .unrecognized => []

end Shape

end SnippetTutor
