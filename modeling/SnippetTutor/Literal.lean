import SnippetTutor.Json.Reader
import SnippetTutor.Memory
import SnippetTutor.Number.Reading
import SnippetTutor.Statement.Quote

/-! # From token to value

A token is read as the first of these that it can be: a quoted literal, a number, one
of the three keywords, a bracketed list, a known variable. Otherwise it stands for
itself as a text. A list that cannot be decoded is empty.
-/
namespace SnippetTutor.Literal

/-- The content of a quoted literal: the closing quote is the next quote of its kind. -/
def unquote? (token : Text) : Option Text :=
  match Text.trim token with
  | [] => none
  | q :: rest =>
    if isQuote q ∧ rest.dropWhile (· ≠ q) = [q] then some (rest.takeWhile (· ≠ q)) else none

def number? (token : Text) : Option Number := Number.ofToken? (Text.trim token)

def nestingAfter (depth : Int) (c : Char) : Int :=
  if c = '[' ∨ c = '\x7b' then depth + 1
  else if c = ']' ∨ c = '\x7d' then depth - 1
  else depth

def nestingFrom : Quote → Int → Text → Int
  | _, _, [] => 0
  | quote, depth, c :: rest =>
    let next := if quote.isPlain c then nestingAfter depth c else depth
    max next (nestingFrom (quote.after c) next rest)

/-- The greatest number of brackets that are open at once outside quotes. -/
def nesting (token : Text) : Int := nestingFrom none 0 token

/-- Lists that look deeper nested than this are not decoded. -/
def maxNesting : Int := 64

/-- What the decoder itself can bear, whatever the count of brackets says. A list beyond its limits is
empty, like any other that it refuses. Nothing else that goes through a value has such a limit here; one
that shares a bounded stack with this decoder moves the limit, but not below `maxNesting` as long as the
nesting of calls is modest. -/
def decoderLimits : Json.Limits where
  nesting := 990
  tooLong d := d.isWhole && decide (Text.maxDigits < d.whole.length)

/-- The items of a bracketed list. Single quotes count as double ones. -/
def readList (token : Text) : Except Fault (List Value) :=
  if maxNesting < nesting token then .ok []
  else match Json.read? decoderLimits (Text.replaceChar '\'' '"' token) with
    | some (.array items) => Value.ofJsonItems items
    | _ => .ok []

def keyword? (token : Text) : Option Value :=
  if token = "True".toList then some (.bool true)
  else if token = "False".toList then some (.bool false)
  else if token = "None".toList then some .undefined
  else none

/-- The value of a trimmed token that is no list. -/
def scalar? (token : Text) : Option Value :=
  (unquote? token).map .text <|> (number? token).map .number <|> keyword? token

def coerce (memory : Memory) (token : Text) : Except Fault Value :=
  let token := Text.trim token
  match scalar? token with
  | some v => .ok v
  | none =>
    if token.head? = some '[' then (readList token).map .list
    else .ok ((Fields.get? memory token).getD (.text token))

end SnippetTutor.Literal
