import SnippetTutor.Machine.Execute

/-! # The call that a line makes

A line is either kept or performed in its shape, and what is performed either makes one
call or has an effect of its own. Which call it is, is settled before the call is carried
out, so that two ways of carrying out calls differ on a line only if they differ on its
call.
-/
namespace SnippetTutor.Machine

/-- A call that is about to be made: what is called, the text of its arguments, and the
machine of the caller. -/
structure Invocation where
  function : Function
  arguments : Text
  caller : Machine

/-- The shape in which a line is performed, and the machine in which it is; none if the
line is skipped or stored. -/
def performed? (marker line : Text) (m : Machine) : Option (Shape × Machine) :=
  match Statement.ofLine marker line with
  | .blank | .comment _ => none
  | .bodyLine text => if m.isCollecting then none else some (Shape.ofText text, m)
  | .shaped _ shape => some (shape, m.closeDefinition)

def shapeCall? (shape : Shape) (m : Machine) : Option Invocation :=
  match shape with
  | .call name arguments => (m.memory.function? name).map fun f => ⟨f, arguments, m⟩
  | _ => none

/-- The call that a line makes in a machine, if it makes one. -/
def invocation? (marker line : Text) (m : Machine) : Option Invocation :=
  (performed? marker line m).bind fun p => shapeCall? p.1 p.2

section Fields
variable (m : Machine)

@[simp] theorem abandon_output : m.abandon.output = m.output ++ [recursionMessage] := rfl
@[simp] theorem abandon_exhausted : m.abandon.exhausted = decide (0 < m.depth) := rfl
@[simp] theorem abandon_calls : m.abandon.calls = m.calls := rfl

@[simp] theorem closeDefinition_output : m.closeDefinition.output = m.output := by
  unfold closeDefinition
  split <;> rfl

@[simp] theorem closeDefinition_depth : m.closeDefinition.depth = m.depth := by
  unfold closeDefinition
  split <;> rfl

@[simp] theorem closeDefinition_exhausted : m.closeDefinition.exhausted = m.exhausted := by
  unfold closeDefinition
  split <;> rfl

@[simp] theorem closeDefinition_calls : m.closeDefinition.calls = m.calls := by
  unfold closeDefinition
  split <;> rfl

variable (f : Function) (values : List Value)

@[simp] theorem enter_depth : (m.enter f values).depth = m.depth + 1 := rfl

variable (policy : ScopePolicy) (inner : Machine)

@[simp] theorem leave_output : (m.leave policy f inner).output = inner.output := rfl
@[simp] theorem leave_calls : (m.leave policy f inner).calls = inner.calls := rfl
@[simp] theorem leave_exhausted :
    (m.leave policy f inner).exhausted = (inner.exhausted && decide (0 < m.depth)) := rfl

end Fields

variable {caller caller' : Caller} {marker line : Text} {shape : Shape} {m n : Machine}
  {c : Invocation}

theorem executeWith_of_performed (h : performed? marker line m = some (shape, n)) :
    executeWith caller marker line m = perform caller shape n := by
  simp only [performed?] at h
  simp only [executeWith]
  cases hs : Statement.ofLine marker line with
  | blank | comment => simp [hs] at h
  | bodyLine text =>
    by_cases hc : m.isCollecting = true
    · simp [hs, hc] at h
    · simp only [hs, hc, Bool.false_eq_true, if_false] at h ⊢
      cases h
      rfl
  | shaped text shape =>
    simp only [hs] at h ⊢
    cases h
    rfl

theorem executeWith_of_not_performed (h : performed? marker line m = none) :
    (∀ caller, executeWith caller marker line m = .ok m) ∨
      ∃ text, Statement.ofLine marker line = .bodyLine text ∧
        ∀ caller, executeWith caller marker line m = .ok (m.collect text) := by
  simp only [performed?] at h
  simp only [executeWith]
  cases hs : Statement.ofLine marker line with
  | blank | comment => exact Or.inl fun _ => rfl
  | bodyLine text =>
    by_cases hc : m.isCollecting = true
    · exact Or.inr ⟨text, rfl, fun _ => by simp [hc]⟩
    · simp [hs, hc] at h
  | shaped text shape => simp [hs] at h

/-- What is performed starts from the machine itself, with its definition completed where
the line is not indented. -/
theorem performed?_machine (h : performed? marker line m = some (shape, n)) :
    n = m ∨ n = m.closeDefinition := by
  simp only [performed?] at h
  cases hs : Statement.ofLine marker line with
  | blank | comment => simp [hs] at h
  | bodyLine text =>
    by_cases hc : m.isCollecting = true
    · simp [hs, hc] at h
    · simp only [hs, hc, Bool.false_eq_true, if_false] at h
      cases h
      exact Or.inl rfl
  | shaped text shape =>
    simp only [hs] at h
    cases h
    exact Or.inr rfl

theorem shapeCall?_eq_some : shapeCall? shape m = some c ↔
    ∃ name, shape = .call name c.arguments ∧ m.memory.function? name = some c.function ∧
      c.caller = m := by
  cases shape with
  | call name arguments =>
    obtain ⟨f, given, caller⟩ := c
    simp only [shapeCall?, Option.map_eq_some_iff, Shape.call.injEq, Invocation.mk.injEq]
    constructor
    · rintro ⟨g, hg, rfl, rfl, rfl⟩
      exact ⟨name, ⟨rfl, rfl⟩, hg, rfl⟩
    · rintro ⟨_, ⟨rfl, rfl⟩, hg, rfl⟩
      exact ⟨f, hg, rfl, rfl, rfl⟩
  | header | assignment | print | method | unrecognized => simp [shapeCall?]

theorem perform_of_no_call (h : shapeCall? shape m = none) :
    perform caller shape m = perform caller' shape m := by
  cases shape with
  | call name arguments =>
    have hf : m.memory.function? name = none := Option.map_eq_none_iff.mp h
    simp [perform, hf]
  | header | assignment | print | method | unrecognized => rfl

theorem invocation?_eq_some : invocation? marker line m = some c ↔
    ∃ shape n, performed? marker line m = some (shape, n) ∧ shapeCall? shape n = some c := by
  simp only [invocation?, Option.bind_eq_some_iff, Prod.exists]

theorem executeWith_of_invocation (h : invocation? marker line m = some c) :
    executeWith caller marker line m = caller c.function c.arguments c.caller := by
  obtain ⟨shape, n, hp, hc⟩ := invocation?_eq_some.mp h
  obtain ⟨name, rfl, hf, rfl⟩ := shapeCall?_eq_some.mp hc
  simp [executeWith_of_performed hp, perform, hf]

theorem executeWith_of_no_invocation (h : invocation? marker line m = none) :
    executeWith caller marker line m = executeWith caller' marker line m := by
  cases hp : performed? marker line m with
  | none =>
    rcases executeWith_of_not_performed hp with hn | ⟨text, -, hn⟩
    · rw [hn caller, hn caller']
    · rw [hn caller, hn caller']
  | some p =>
    obtain ⟨shape, n⟩ := p
    rw [executeWith_of_performed hp, executeWith_of_performed hp]
    apply perform_of_no_call
    simpa [invocation?, hp] using h

theorem invocation?_caller (h : invocation? marker line m = some c) :
    c.caller = m ∨ c.caller = m.closeDefinition := by
  obtain ⟨shape, n, hp, hc⟩ := invocation?_eq_some.mp h
  obtain ⟨name, -, -, rfl⟩ := shapeCall?_eq_some.mp hc
  exact performed?_machine hp

theorem invocation?_depth (h : invocation? marker line m = some c) : c.caller.depth = m.depth := by
  rcases invocation?_caller h with hc | hc <;> simp [hc]

theorem invocation?_output (h : invocation? marker line m = some c) : c.caller.output = m.output := by
  rcases invocation?_caller h with hc | hc <;> simp [hc]

theorem invocation?_calls (h : invocation? marker line m = some c) : c.caller.calls = m.calls := by
  rcases invocation?_caller h with hc | hc <;> simp [hc]

end SnippetTutor.Machine
