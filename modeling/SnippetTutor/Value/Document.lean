import SnippetTutor.Json.Basic
import SnippetTutor.Value.Basic

/-! # Values as JSON documents

Going out, a number that is whole becomes a whole number, and a function becomes an
object that is marked as one. Coming in, every number becomes one of double
precision, and a whole number that is too large for that is a fault; null becomes
the undefined value.
-/
namespace SnippetTutor

/-- The one way in which running a snippet can fail. The stack is no part of the model: documents,
values and calls are gone through however deep they are nested. An implementation on a bounded stack
fails where it is used up, so "it returns" means of such a one that it returns while the nesting is
modest (`Machine.Modest`). -/
inductive Fault
  | numberTooLarge
deriving DecidableEq, Inhabited

def Fault.message : Fault → String
  | .numberTooLarge => "int too large to convert to float"

def Function.toJson (f : Function) : Json :=
  .obj [("__function__", .bool true), ("name", .text f.name),
    ("params", .array (f.params.map .text)), ("body", .array (f.body.map .text))]

namespace Value

mutual

def toJson : Value → Json
  | .number x => match x.whole? with
    | some n => .int n
    | none => .number x
  | .text t => .text t
  | .bool b => .bool b
  | .list items => .array (toJsonItems items)
  | .record fields => .object (toJsonFields fields)
  | .function f => f.toJson
  | .undefined => .null

def toJsonItems : List Value → List Json
  | [] => []
  | item :: rest => toJson item :: toJsonItems rest

def toJsonFields : List (Text × Value) → List (Text × Json)
  | [] => []
  | (key, value) :: rest => (key, toJson value) :: toJsonFields rest

end

def ofWhole (n : Int) : Except Fault Value :=
  (Number.ofInt? n).elim (.error .numberTooLarge) fun x => .ok (.number x)

mutual

def ofJson : Json → Except Fault Value
  | .null => .ok .undefined
  | .bool b => .ok (.bool b)
  | .int n => ofWhole n
  | .number x => .ok (.number x)
  | .text t => .ok (.text t)
  | .array items => do .ok (.list (← ofJsonItems items))
  | .object fields => do .ok (.record (← ofJsonFields fields))

def ofJsonItems : List Json → Except Fault (List Value)
  | [] => .ok []
  | item :: rest => do .ok ((← ofJson item) :: (← ofJsonItems rest))

def ofJsonFields : List (Text × Json) → Except Fault (List (Text × Value))
  | [] => .ok []
  | (key, value) :: rest => do .ok ((key, ← ofJson value) :: (← ofJsonFields rest))

end

end Value

end SnippetTutor
