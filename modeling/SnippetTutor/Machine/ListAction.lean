import SnippetTutor.Literal
import SnippetTutor.StableSort

/-! # Actions on lists

The four methods that a list has. A method yields the new list and never prints.
-/
namespace SnippetTutor

inductive ListAction
  | append
  | pop
  | sort
  | remove
deriving DecidableEq, Inhabited

namespace ListAction

def ofName? (name : Text) : Option ListAction :=
  if name = "append".toList then some .append
  else if name = "pop".toList then some .pop
  else if name = "sort".toList then some .sort
  else if name = "remove".toList then some .remove
  else none

/-- Appends the value of the argument; without an argument nothing is appended. -/
def appendTo (items : List Value) (argument : Text) (memory : Memory) :
    Except Fault (List Value) :=
  if argument.isEmpty then .ok items
  else do .ok (items ++ [← Literal.coerce memory argument])

/-- Sorts by displayed text, code point by code point, and keeps the order of items
that display alike. -/
def sorted (items : List Value) : List Value :=
  stableSortOn Value.display (fun a b => decide (a < b)) items

/-- Drops the first item that the target removes. -/
def without (target : Value) : List Value → List Value
  | [] => []
  | item :: rest => if target.removedBy item then rest else item :: without target rest

def apply (action : ListAction) (items : List Value) (argument : Text) (memory : Memory) :
    Except Fault (List Value) :=
  match action with
  | .append => appendTo items argument memory
  | .pop => .ok items.dropLast
  | .sort => .ok (sorted items)
  | .remove => do .ok (without (← Literal.coerce memory argument) items)

end ListAction

end SnippetTutor
