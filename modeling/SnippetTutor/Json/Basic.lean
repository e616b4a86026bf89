import SnippetTutor.Fields
import SnippetTutor.Number.Basic

/-! # JSON documents

Whole numbers stay exact and other numbers are of double precision. An object
keeps its fields in the order of their first appearance.
-/
namespace SnippetTutor

inductive Json
  | null
  | bool (b : Bool)
  | int (n : Int)
  | number (x : Number)
  | text (t : Text)
  | array (items : List Json)
  | object (fields : List (Text × Json))
deriving Inhabited

namespace Json

def str (s : String) : Json := .text s.toList

def obj (fields : List (String × Json)) : Json := .object (fields.map fun f => (f.1.toList, f.2))

end Json

end SnippetTutor
