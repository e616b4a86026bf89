import SnippetTutor.Memory

/-! # The machine

The state between two statements: memory, the output so far, a definition whose body
is being collected, and the account of calls. The definition lives beside the memory,
so that it does not show before it is complete.
-/
namespace SnippetTutor

/-- What a call leaves in the memory of its caller: nothing, or the new values of
variables that the caller had. -/
inductive ScopePolicy
  | isolated
  | writeBack
deriving DecidableEq, Inhabited

def ScopePolicy.label : ScopePolicy → Text
  | .isolated => "isolated".toList
  | .writeBack => "write_back".toList

def ScopePolicy.all : List ScopePolicy := [.isolated, .writeBack]

def ScopePolicy.ofLabel? (t : Text) : Option ScopePolicy := all.find? fun p => p.label == t

structure Config where
  scope : ScopePolicy := .isolated
  maxDepth : Int := 32
  maxCalls : Int := 10000
  marker : Text := ['#']
  verbose : Bool := false
deriving DecidableEq, Inhabited

/-- `callFloor` is the number of calls when the outermost active call began, and
`exhausted` says that a limit was hit and the active calls unwind. -/
structure Machine where
  memory : Memory := []
  output : List Text := []
  pending : Option Function := none
  depth : Int := 0
  calls : Int := 0
  callFloor : Int := 0
  exhausted : Bool := false
deriving DecidableEq, Inhabited

namespace Machine

def initial : Machine := {}

def isCollecting (m : Machine) : Bool := m.pending.isSome

def emit (m : Machine) (t : Text) : Machine := { m with output := m.output ++ [t] }

def bind (m : Machine) (name : Text) (value : Value) : Machine :=
  { m with memory := m.memory.bind name value }

/-- Adds a line to the body of the pending definition. -/
def collect (m : Machine) (line : Text) : Machine :=
  { m with pending := m.pending.map fun f => { f with body := f.body ++ [line] } }

/-- Binds the pending definition, if there is one, to its name. -/
def closeDefinition (m : Machine) : Machine :=
  match m.pending with
  | none => m
  | some f => { m.bind f.name (.function f) with pending := none }

end Machine

end SnippetTutor
