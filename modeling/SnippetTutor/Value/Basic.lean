import SnippetTutor.Number.Basic
import SnippetTutor.Text.Basic

/-! # Values of a snippet

Lists and records hold values of any kind, functions included. A function keeps its
body as text lines, which are run again on each call.
-/
namespace SnippetTutor

structure Function where
  name : Text
  params : List Text
  body : List Text
deriving DecidableEq, Inhabited

inductive Value
  | number (x : Number)
  | text (t : Text)
  | bool (b : Bool)
  | list (items : List Value)
  | record (fields : List (Text × Value))
  | function (f : Function)
  | undefined
deriving Inhabited

namespace Value

def isList : Value → Bool
  | .list _ => true
  | _ => false

def isFunction : Value → Bool
  | .function _ => true
  | _ => false

def items? : Value → Option (List Value)
  | .list items => some items
  | _ => none

def function? : Value → Option Function
  | .function f => some f
  | _ => none

mutual

/-- Decides whether two values are the same down to the sign of a zero. -/
def decEq : (a b : Value) → Decidable (a = b)
  | .number x, b => match b with
    | .number y => decidable_of_iff (x = y) (by simp)
    | .text _ | .bool _ | .list _ | .record _ | .function _ | .undefined => isFalse (by simp)
  | .text t, b => match b with
    | .text u => decidable_of_iff (t = u) (by simp)
    | .number _ | .bool _ | .list _ | .record _ | .function _ | .undefined => isFalse (by simp)
  | .bool p, b => match b with
    | .bool q => decidable_of_iff (p = q) (by simp)
    | .number _ | .text _ | .list _ | .record _ | .function _ | .undefined => isFalse (by simp)
  | .list xs, b => match b with
    | .list ys => match decEqList xs ys with
      | isTrue h => isTrue (by simp [h])
      | isFalse h => isFalse (by simp [h])
    | .number _ | .text _ | .bool _ | .record _ | .function _ | .undefined => isFalse (by simp)
  | .record xs, b => match b with
    | .record ys => match decEqFields xs ys with
      | isTrue h => isTrue (by simp [h])
      | isFalse h => isFalse (by simp [h])
    | .number _ | .text _ | .bool _ | .list _ | .function _ | .undefined => isFalse (by simp)
  | .function f, b => match b with
    | .function g => decidable_of_iff (f = g) (by simp)
    | .number _ | .text _ | .bool _ | .list _ | .record _ | .undefined => isFalse (by simp)
  | .undefined, b => match b with
    | .undefined => isTrue rfl
    | .number _ | .text _ | .bool _ | .list _ | .record _ | .function _ => isFalse (by simp)

def decEqList : (xs ys : List Value) → Decidable (xs = ys)
  | [], [] => isTrue rfl
  | [], _ :: _ => isFalse (by simp)
  | _ :: _, [] => isFalse (by simp)
  | x :: xs, y :: ys => match decEq x y, decEqList xs ys with
    | isTrue h, isTrue k => isTrue (by simp [h, k])
    | isFalse h, _ => isFalse (by simp [h])
    | _, isFalse k => isFalse (by simp [k])

def decEqFields : (xs ys : List (Text × Value)) → Decidable (xs = ys)
  | [], [] => isTrue rfl
  | [], _ :: _ => isFalse (by simp)
  | _ :: _, [] => isFalse (by simp)
  | (k, x) :: xs, (l, y) :: ys => match decEq x y, decEqFields xs ys with
    | isTrue h, isTrue h' => decidable_of_iff (k = l) (by simp [h, h'])
    | isFalse h, _ => isFalse (by simp [h])
    | _, isFalse h' => isFalse (by simp [h'])

end

instance : DecidableEq Value := decEq

end Value

end SnippetTutor
