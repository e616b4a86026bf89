import SnippetTutor.Fields
import SnippetTutor.Value.Basic

/-! # Equality of values in a snippet

Inside lists and records a boolean equals the number one or zero, the two zeros are
equal, a nan equals itself, and the order of the fields of a record does not count.
A list item is removed only for a target of its own kind, and then a bare nan equals
nothing.
-/
namespace SnippetTutor

namespace Value

def boolAsNumber (b : Bool) : Number := if b then .one else .zero

mutual

def alike : Value → Value → Bool
  | .number x, b => match b with
    | .number y => x.equal y || (x == .nan && y == .nan)
    | .bool q => x.equal (boolAsNumber q)
    | _ => false
  | .bool p, b => match b with
    | .bool q => p == q
    | .number y => y.equal (boolAsNumber p)
    | _ => false
  | .text t, b => match b with
    | .text u => t == u
    | _ => false
  | .list xs, b => match b with
    | .list ys => alikeItems xs ys
    | _ => false
  | .record xs, b => match b with
    | .record ys => xs.length == ys.length && alikeFields xs ys
    | _ => false
  | .function f, b => match b with
    | .function g => f == g
    | _ => false
  | .undefined, b => match b with
    | .undefined => true
    | _ => false

def alikeItems : List Value → List Value → Bool
  | [], [] => true
  | x :: xs, y :: ys => alike x y && alikeItems xs ys
  | _, _ => false

/-- Every field has its like under the same key of the other record. -/
def alikeFields : List (Text × Value) → List (Text × Value) → Bool
  | [], _ => true
  | (key, x) :: xs, ys => (match Fields.get? ys key with
    | some y => alike x y
    | none => false) && alikeFields xs ys

end

/-- Whether removing the target takes the item out of a list. -/
def removedBy (target item : Value) : Bool :=
  match target, item with
  | .number x, .number y => y.equal x
  | .number _, _ | _, .number _ => false
  | .bool p, .bool q => q == p
  | .bool _, _ | _, .bool _ => false
  | _, _ => alike item target

end Value

end SnippetTutor
