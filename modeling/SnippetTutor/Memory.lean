import SnippetTutor.Value.Display
import SnippetTutor.Value.Document
import SnippetTutor.Value.Equality

/-! # Memory of a snippet

The variables in the order of their first assignment. Memory is a value: what a step
has recorded does not change with later statements.
-/
namespace SnippetTutor

abbrev Memory := Fields Value

/-- A row of the memory table: the name, the displayed value and its kind. -/
structure Memory.Row where
  name : Text
  shown : Text
  kind : Value.Kind
deriving DecidableEq, Inhabited

namespace Memory

def bind (m : Memory) (name : Text) (value : Value) : Memory := Fields.assign m name value

def list? (m : Memory) (name : Text) : Option (List Value) := (Fields.get? m name).bind Value.items?

def function? (m : Memory) (name : Text) : Option Function :=
  (Fields.get? m name).bind Value.function?

/-- Equality as the snippet sees it, without regard to order. -/
def alike (a b : Memory) : Bool := a.length == b.length && Value.alikeFields a b

/-- Each name with its displayed value. -/
def shown (m : Memory) : Fields Text := m.map fun field => (field.1, field.2.display)

def table (m : Memory) : List Row := m.map fun field => ⟨field.1, field.2.display, field.2.kind⟩

def toJson (m : Memory) : Json := .object (Value.toJsonFields m)

end Memory

end SnippetTutor
