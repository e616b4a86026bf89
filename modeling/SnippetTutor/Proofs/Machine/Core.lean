import SnippetTutor.Proofs.Machine.Reached

/-! # What a line acts on

A line that makes no call reads and changes only the memory and the pending definition,
and adds to the output; the account of calls passes through it unseen. What it does to any
machine is therefore known from what it does to one that holds nothing else.
-/
namespace SnippetTutor.Machine
open Outcome

/-- The part of a machine that a line reads, with no output yet. -/
def core (m : Machine) : Machine := { memory := m.memory, pending := m.pending }

/-- A machine after a line that has turned its core into `k`. -/
def absorb (m k : Machine) : Machine :=
  { m with memory := k.memory, output := m.output ++ k.output, pending := k.pending }

variable {caller : Caller} {marker line : Text} {shape : Shape} {m n : Machine} {c : Invocation}

section Fields
variable (m k : Machine)

@[simp] theorem core_memory : m.core.memory = m.memory := rfl
@[simp] theorem absorb_output : (m.absorb k).output = m.output ++ k.output := rfl

theorem core_eq_iff {a b : Machine} :
    a.core = b.core ↔ a.memory = b.memory ∧ a.pending = b.pending := by
  simp [core]

theorem absorb_core : m.absorb m.core = m := by
  simp [absorb, core]

theorem absorb_collect (text : Text) : m.absorb (m.core.collect text) = m.collect text := by
  simp [absorb, core, collect]

theorem core_closeDefinition : m.closeDefinition.core = m.core.closeDefinition := by
  unfold closeDefinition
  cases hp : m.pending <;> simp [core, hp, bind]

theorem absorb_closeDefinition : m.absorb m.core.closeDefinition = m.closeDefinition := by
  obtain ⟨memory, output, pending, depth, calls, callFloor, exhausted⟩ := m
  cases pending <;> simp [closeDefinition, absorb, core, bind]

theorem closeDefinition_absorb : m.closeDefinition.absorb k = m.absorb k := by
  unfold closeDefinition
  cases hp : m.pending <;> simp [absorb, bind]

end Fields

theorem assign_core (m : Machine) (name expr : Text) :
    m.assign name expr = (m.core.assign name expr).map m.absorb := by
  simp only [assign, core_memory]
  cases listCall? m.memory expr with
  | none =>
    rw [map_bind]
    simp [map_ok, absorb, core, bind]
  | some parts =>
    obtain ⟨object, items, action, argument⟩ := parts
    simp only [map_bind]
    simp [map_ok, absorb, core, bind]

theorem callMethod_core (m : Machine) (object name arguments : Text) :
    m.callMethod object name arguments = (m.core.callMethod object name arguments).map m.absorb := by
  simp only [callMethod, core_memory]
  cases ListAction.ofName? name with
  | none => simp [map_ok, absorb_core]
  | some action =>
    cases m.memory.list? object with
    | none => simp [map_ok, absorb_core]
    | some items =>
      simp only [map_bind]
      simp [map_ok, absorb, core, bind]

theorem perform_core (h : shapeCall? shape m = none) :
    perform caller shape m = (perform caller shape m.core).map m.absorb := by
  cases shape with
  | assignment name expr => exact assign_core m name expr
  | method object name arguments => exact callMethod_core m object name arguments
  | call name arguments =>
    have hf : m.memory.function? name = none := Option.map_eq_none_iff.mp h
    simp [perform, hf, map_ok, absorb_core]
  | header name params => simp [perform, map_ok, absorb, core]
  | print argument => simp [perform, map_ok, absorb, core, emit]
  | unrecognized => simp [perform, map_ok, absorb_core]

theorem performed?_core (marker line : Text) (m : Machine) :
    performed? marker line m.core = (performed? marker line m).map fun p => (p.1, p.2.core) := by
  simp only [performed?]
  cases Statement.ofLine marker line with
  | blank | comment => rfl
  | bodyLine text =>
    change (if m.isCollecting then none else some (Shape.ofText text, m.core)) = _
    split <;> rfl
  | shaped text shape => simp [core_closeDefinition]

theorem invocation?_core (marker line : Text) (m : Machine) :
    invocation? marker line m.core =
      (invocation? marker line m).map fun c => { c with caller := c.caller.core } := by
  simp only [invocation?, performed?_core]
  cases performed? marker line m with
  | none => rfl
  | some p =>
    obtain ⟨shape, n⟩ := p
    cases shape with
    | call name arguments => simp [shapeCall?, Function.comp_def]
    | header | assignment | print | method | unrecognized => rfl

/-- Before a call is made, a line completes at most the pending definition. -/
theorem invocation?_absorb (h : invocation? marker line m = some c) :
    c.caller = m.absorb c.caller.core := by
  rcases invocation?_caller h with hc | hc
  · rw [hc, absorb_core]
  · rw [hc, core_closeDefinition, absorb_closeDefinition]

theorem executeWith_core (h : invocation? marker line m = none) :
    executeWith caller marker line m = (executeWith caller marker line m.core).map m.absorb := by
  cases hp : performed? marker line m with
  | none =>
    simp only [performed?] at hp
    simp only [executeWith]
    cases hs : Statement.ofLine marker line with
    | blank | comment => simp [map_ok, absorb_core]
    | bodyLine text =>
      have hcollecting : m.isCollecting = true := by simpa [hs] using hp
      have hcore : m.core.isCollecting = true := hcollecting
      simp [hcollecting, hcore, map_ok, absorb_collect]
    | shaped text shape => simp [hs] at hp
  | some p =>
    obtain ⟨shape, start⟩ := p
    have hcall : shapeCall? shape start = none := by simpa [invocation?, hp] using h
    have hcore : performed? marker line m.core = some (shape, start.core) := by
      rw [performed?_core, hp, Option.map_some]
    rw [executeWith_of_performed hp, executeWith_of_performed hcore, perform_core hcall]
    congr 1
    funext k
    rcases performed?_machine hp with rfl | rfl
    · rfl
    · exact closeDefinition_absorb m k

end SnippetTutor.Machine
