import SnippetTutor.Value.Basic
import SnippetTutor.Number.Notation

/-! # Display of values

A value is displayed in the notation of the source language. A text shows its bare
characters on its own and stands in single quotes inside a list or record.
-/
namespace SnippetTutor.Value

mutual

def displayAt (inside : Bool) : Value → Text
  | .number x => x.display
  | .text t => if inside then '\'' :: t ++ ['\''] else t
  | .bool b => if b then "True".toList else "False".toList
  | .list items => '[' :: Text.joinWith ", ".toList (displayItems items) ++ [']']
  | .record fields => '\x7b' :: Text.joinWith ", ".toList (displayFields fields) ++ ['\x7d']
  | .function f => "<function ".toList ++ f.name ++ ['>']
  | .undefined => "None".toList

def displayItems : List Value → List Text
  | [] => []
  | item :: rest => displayAt true item :: displayItems rest

def displayFields : List (Text × Value) → List Text
  | [] => []
  | (key, value) :: rest =>
    ('\'' :: key ++ "': ".toList ++ displayAt true value) :: displayFields rest

end

/-- What a print statement shows. -/
def display (v : Value) : Text := displayAt false v

/-- What stands for the value inside a list or record. -/
def displayItem (v : Value) : Text := displayAt true v

inductive Kind
  | number
  | text
  | bool
  | list
  | record
  | function
  | undefined
deriving DecidableEq, Inhabited

def kind : Value → Kind
  | .number _ => .number
  | .text _ => .text
  | .bool _ => .bool
  | .list _ => .list
  | .record _ => .record
  | .function _ => .function
  | .undefined => .undefined

/-- The word that the memory table shows for a kind. -/
def Kind.label : Kind → Text
  | .number => "number".toList
  | .text => "string".toList
  | .bool => "boolean".toList
  | .list => "list".toList
  | .record => "dict".toList
  | .function => "function".toList
  | .undefined => "undefined".toList

end SnippetTutor.Value
