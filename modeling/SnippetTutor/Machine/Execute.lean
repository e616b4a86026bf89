import SnippetTutor.Arguments
import SnippetTutor.Machine.Basic
import SnippetTutor.Machine.ListAction
import SnippetTutor.Machine.Print
import SnippetTutor.Statement.Basic

/-! # Execution of a statement

A call runs the stored body against a copy of the memory of its caller. Two limits
end a chain of calls: how deep calls may nest, and how many calls one outermost call
may make. Hitting a limit prints one line, and then every active call ends without
running more of its body.

The levels of nesting that are left bound the recursion: `callAt` counts them down,
and a call with no level left is abandoned.
-/
namespace SnippetTutor

/-- The caller's memory after a call. Parameters keep the values of the caller. -/
def mergeScope (policy : ScopePolicy) (outer inner : Memory) (params : List Text) : Memory :=
  match policy with
  | .isolated => outer
  | .writeBack => outer.map fun field =>
    if field.1 ∈ params then field else (field.1, (Fields.get? inner field.1).getD field.2)

/-- Parameters take the arguments in order; a parameter without one is undefined, and
an argument without one is dropped. -/
def paramBindings : List Text → List Value → Memory
  | [], _ => []
  | param :: params, [] => (param, .undefined) :: paramBindings params []
  | param :: params, value :: values => (param, value) :: paramBindings params values

namespace Machine

def recursionMessage : Text := "RecursionError: maximum recursion depth exceeded".toList

/-- Gives up a call. Only a call inside another one has active calls to unwind. -/
def abandon (m : Machine) : Machine :=
  { m.emit recursionMessage with exhausted := decide (0 < m.depth) }

/-- The count from which the budget of the outermost call is measured. -/
def floor (m : Machine) : Int := if m.depth = 0 then m.calls else m.callFloor

/-- The machine in which a body starts. -/
def enter (m : Machine) (f : Function) (values : List Value) : Machine where
  memory := Fields.update m.memory (paramBindings f.params values)
  output := m.output
  depth := m.depth + 1
  calls := m.calls + 1
  callFloor := m.floor

/-- The caller after the body has ended in the machine `inner`. -/
def leave (policy : ScopePolicy) (f : Function) (m inner : Machine) : Machine :=
  { m with
    memory := mergeScope policy m.memory inner.memory f.params
    output := inner.output
    calls := inner.calls
    exhausted := inner.exhausted && decide (0 < m.depth) }

/-- What an expression of the form `list.append(...)` or `list.pop(...)` refers to. -/
def listCall? (memory : Memory) (expr : Text) :
    Option (Text × List Value × ListAction × Text) := do
  let (object, name, argument) ← Shape.methodParts? expr
  let items ← memory.list? object
  match ListAction.ofName? name with
  | some .append => some (object, items, .append, argument)
  | some .pop => some (object, items, .pop, argument)
  | _ => none

def lastItem (items : List Value) : Value := items.getLast?.getD .undefined

/-- An assignment from a list call changes the list first and then the target. -/
def assign (m : Machine) (name expr : Text) : Except Fault Machine :=
  match listCall? m.memory expr with
  | some (object, items, action, argument) => do
    let changed ← action.apply items argument m.memory
    let result := if action = .pop then lastItem items else .undefined
    .ok ((m.bind object (.list changed)).bind name result)
  | none => do .ok (m.bind name (← Literal.coerce m.memory expr))

/-- A method call on anything but a list, or of an unknown method, does nothing. -/
def callMethod (m : Machine) (object name arguments : Text) : Except Fault Machine :=
  match ListAction.ofName? name, m.memory.list? object with
  | some action, some items => do
    .ok (m.bind object (.list (← action.apply items arguments m.memory)))
  | _, _ => .ok m

/-- How a call of a function is carried out. -/
abbrev Caller := Function → Text → Machine → Except Fault Machine

def perform (caller : Caller) (shape : Shape) (m : Machine) : Except Fault Machine :=
  match shape with
  | .header name params => .ok { m with pending := some ⟨name, Arguments.params params, []⟩ }
  | .assignment name expr => m.assign name expr
  | .print argument => .ok (m.emit (Print.text m.memory argument))
  | .method object name arguments => m.callMethod object name arguments
  | .call name arguments => match m.memory.function? name with
    | some f => caller f arguments m
    | none => .ok m
  | .unrecognized => .ok m

/-- Executes a line. While a definition is pending, indented lines are stored; the
first line that is not indented completes the definition and is then run. An indented
line outside a definition is run as if it were not indented. -/
def executeWith (caller : Caller) (marker line : Text) (m : Machine) : Except Fault Machine :=
  match Statement.ofLine marker line with
  | .blank | .comment _ => .ok m
  | .bodyLine text =>
    if m.isCollecting then .ok (m.collect text) else perform caller (Shape.ofText text) m
  | .shaped _ shape => perform caller shape m.closeDefinition

/-- Runs the lines of a body, up to the first one after which the calls unwind. -/
def runBody (execute : Text → Machine → Except Fault Machine) :
    List Text → Machine → Except Fault Machine
  | [], m => .ok m
  | line :: rest, m => do
    let next ← execute line m
    if next.exhausted then .ok next else runBody execute rest next

/-- Carries out a call with `room` levels of nesting left. -/
def callAt (config : Config) (room : Nat) (f : Function) (arguments : Text) (m : Machine) :
    Except Fault Machine :=
  if m.exhausted then .ok m
  else if config.maxCalls ≤ m.calls - m.floor then .ok m.abandon
  else match room with
    | 0 => .ok m.abandon
    | room + 1 => do
      let values ← (Arguments.split arguments).mapM (Literal.coerce m.memory)
      let inner ← runBody (executeWith (callAt config room) config.marker) f.body (m.enter f values)
      .ok (m.leave config.scope f inner.closeDefinition)

/-- The levels of nesting that are left at a depth. -/
def room (config : Config) (depth : Int) : Nat := (config.maxDepth - depth).toNat

def call (config : Config) (f : Function) (arguments : Text) (m : Machine) :
    Except Fault Machine :=
  callAt config (room config m.depth) f arguments m

def execute (config : Config) (line : Text) (m : Machine) : Except Fault Machine :=
  executeWith (call config) config.marker line m

end Machine

end SnippetTutor
