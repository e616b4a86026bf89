import SnippetTutor.Json.Token

/-! # Reading a JSON document

The reader goes once over the tokens. It keeps the arrays and objects that are still
open, innermost first, and what may come next. A document is read when a value is
complete, nothing is open and no token is left.
-/
namespace SnippetTutor.Json

/-- An open array with its items so far, or an open object with its fields so far and
the key of the value to come. Both are held in reverse. -/
inductive Open
  | array (items : List Json)
  | object (fields : List (Text × Json)) (key : Text)
deriving Inhabited

inductive Awaits
  | value
  | firstItem
  | firstKey
  | key (fields : List (Text × Json))
  | colon (fields : List (Text × Json)) (key : Text)
  | separator (done : Json)
deriving Inhabited

structure Reading where
  awaits : Awaits
  stack : List Open
deriving Inhabited

namespace Reading

def start : Reading := ⟨.value, []⟩

/-- A token where a value must start. -/
def value (opened : List Open) : Token → Option Reading
  | .scalar v => some ⟨.separator v, opened⟩
  | .text t => some ⟨.separator (.text t), opened⟩
  | .mark c =>
    if c = '[' then some ⟨.firstItem, opened⟩
    else if c = '\x7b' then some ⟨.firstKey, opened⟩
    else none

def isClosing (c : Char) : Token → Bool
  | .mark d => d == c
  | _ => false

/-- A token after a complete value. -/
def separator (done : Json) : List Open → Token → Option Reading
  | .array items :: outer, .mark c =>
    if c = ',' then some ⟨.value, .array (done :: items) :: outer⟩
    else if c = ']' then some ⟨.separator (.array (done :: items).reverse), outer⟩
    else none
  | .object fields key :: outer, .mark c =>
    if c = ',' then some ⟨.key ((key, done) :: fields), outer⟩
    else if c = '\x7d' then
      some ⟨.separator (.object (Fields.ofList ((key, done) :: fields).reverse)), outer⟩
    else none
  | _, _ => none

/-- What holds something counts as nested from its first item or key on. -/
def step (limits : Limits) (r : Reading) (t : Token) : Option Reading :=
  match r.awaits with
  | .value => value r.stack t
  | .firstItem =>
    if isClosing ']' t then some ⟨.separator (.array []), r.stack⟩
    else if limits.nesting ≤ r.stack.length then none
    else value (.array [] :: r.stack) t
  | .firstKey =>
    if isClosing '\x7d' t then some ⟨.separator (.object []), r.stack⟩
    else if limits.nesting ≤ r.stack.length then none
    else match t with
      | .text key => some ⟨.colon [] key, r.stack⟩
      | _ => none
  | .key fields => match t with
    | .text key => some ⟨.colon fields key, r.stack⟩
    | _ => none
  | .colon fields key =>
    if isClosing ':' t then some ⟨.value, .object fields key :: r.stack⟩ else none
  | .separator done => separator done r.stack t

def result? (r : Reading) : Option Json :=
  match r.awaits, r.stack with
  | .separator done, [] => some done
  | _, _ => none

end Reading

/-- Reads a document within the limits. -/
def read? (limits : Limits) (t : Text) : Option Json :=
  (tokens? limits t).bind fun ts => (ts.foldlM (Reading.step limits) .start).bind Reading.result?

end SnippetTutor.Json
