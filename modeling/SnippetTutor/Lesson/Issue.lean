import SnippetTutor.Text.Basic

/-! # Issues of a lesson document

An issue says what is wrong and where: the path of keys and positions that leads to
the wrong place.
-/
namespace SnippetTutor

inductive Issue.Kind
  | notJson
  | missing
  | notObject
  | notRecord
  | notList
  | notText
  | notInteger
  | unreadableInteger
  | fractional
  | notFinite
  | oversized
  | belowOne
deriving DecidableEq, Inhabited

inductive Issue.Segment
  | key (name : Text)
  | position (n : Nat)
deriving DecidableEq, Inhabited

structure Issue where
  kind : Issue.Kind
  path : List Issue.Segment
deriving DecidableEq, Inhabited

namespace Issue

def Kind.label : Kind → String
  | .notJson => "json_invalid"
  | .missing => "missing"
  | .notObject => "model_type"
  | .notRecord => "dict_type"
  | .notList => "list_type"
  | .notText => "string_type"
  | .notInteger => "int_type"
  | .unreadableInteger => "int_parsing"
  | .fractional => "int_from_float"
  | .notFinite => "finite_number"
  | .oversized => "int_parsing_size"
  | .belowOne => "greater_than_equal"

/-- What the issue says; a text that is no JSON document speaks for itself. -/
def Kind.message? : Kind → Option String
  | .notJson => none
  | .missing => some "Field required"
  | .notObject | .notRecord => some "Input should be an object"
  | .notList => some "Input should be a valid array"
  | .notText => some "Input should be a valid string"
  | .notInteger => some "Input should be a valid integer"
  | .unreadableInteger =>
    some "Input should be a valid integer, unable to parse string as an integer"
  | .fractional =>
    some "Input should be a valid integer, got a number with a fractional part"
  | .notFinite => some "Input should be a finite number"
  | .oversized => some "Unable to parse input string as an integer, exceeded maximum size"
  | .belowOne => some "Input should be greater than or equal to 1"

/-- The same issue seen from one level further out. -/
def under (segment : Segment) (issue : Issue) : Issue :=
  { issue with path := segment :: issue.path }

end Issue

end SnippetTutor
