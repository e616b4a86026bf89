import SnippetTutor.Proofs.Literal.Fault
import SnippetTutor.Proofs.Machine.Reached

/-! # Statements that cannot be executed

The only partial part of a statement is the reading of a token. A statement therefore
fails exactly if a line that it runs reads a list that is oversized.
-/
namespace SnippetTutor
open Outcome

namespace ListAction

/-- The tokens that an action resolves. -/
def operands : ListAction → Text → List Text
  | .append, argument => if argument.isEmpty then [] else [argument]
  | .remove, argument => [argument]
  | .pop, _ | .sort, _ => []

theorem apply_eq_error {action : ListAction} {items : List Value} {argument : Text} {memory : Memory}
    {fault : Fault} : action.apply items argument memory = .error fault ↔
      ∃ token ∈ action.operands argument, Literal.Faulty token := by
  cases action with
  | append =>
    by_cases h : argument.isEmpty = true
    · simp [apply, appendTo, operands, h]
    · simp [apply, appendTo, operands, h, bind_eq_error, Literal.coerce_eq_error]
  | remove => simp [apply, operands, bind_eq_error, Literal.coerce_eq_error]
  | pop | sort => simp [apply, operands]

end ListAction

namespace Machine
variable {config : Config} {caller : Caller} {line line' : Text} {shape : Shape} {m m' n : Machine}
  {c : Invocation} {fault : Fault}

instance (config : Config) (m : Machine) : Decidable (m.Admits config) :=
  inferInstanceAs (Decidable (_ ∧ _ ∧ _))

/-- The tokens that a shape resolves itself; a call that is refused resolves none of its
arguments. -/
def operands (config : Config) (shape : Shape) (m : Machine) : List Text :=
  match shape with
  | .assignment _ expr => match listCall? m.memory expr with
    | some (_, _, action, argument) => action.operands argument
    | none => [expr]
  | .method object name arguments =>
    match ListAction.ofName? name, m.memory.list? object with
    | some action, some _ => action.operands arguments
    | _, _ => []
  | .call name arguments => match m.memory.function? name with
    | some _ => if m.Admits config then Arguments.split arguments else []
    | none => []
  | .header _ _ | .print _ | .unrecognized => []

/-- The tokens that a line resolves itself, before the bodies that it calls do. -/
def reads (config : Config) (line : Text) (m : Machine) : List Text :=
  ((performed? config.marker line m).map fun p => operands config p.1 p.2).getD []

theorem assign_eq_error {name expr : Text} : m.assign name expr = .error fault ↔
    ∃ token ∈ operands config (.assignment name expr) m, Literal.Faulty token := by
  simp only [assign, operands]
  cases listCall? m.memory expr with
  | none => simp [bind_eq_error, Literal.coerce_eq_error]
  | some parts =>
    obtain ⟨object, items, action, argument⟩ := parts
    simp [bind_eq_error, ListAction.apply_eq_error]

theorem callMethod_eq_error {object name arguments : Text} :
    m.callMethod object name arguments = .error fault ↔
      ∃ token ∈ operands config (.method object name arguments) m, Literal.Faulty token := by
  simp only [callMethod, operands]
  cases ListAction.ofName? name with
  | none => simp
  | some action =>
    cases m.memory.list? object with
    | none => simp
    | some items => simp [bind_eq_error, ListAction.apply_eq_error]

theorem perform_eq_error (config : Config) (h : shapeCall? shape m = none) :
    perform caller shape m = .error fault ↔
      ∃ token ∈ operands config shape m, Literal.Faulty token := by
  cases shape with
  | assignment name expr => exact assign_eq_error
  | method object name arguments => exact callMethod_eq_error
  | call name arguments =>
    have hf : m.memory.function? name = none := Option.map_eq_none_iff.mp h
    simp [perform, operands, hf]
  | header | print | unrecognized => simp [perform, operands]

theorem reads_of_invocation (h : invocation? config.marker line m = some c) :
    reads config line m = if c.caller.Admits config then Arguments.split c.arguments else [] := by
  obtain ⟨shape, n, hp, hc⟩ := invocation?_eq_some.mp h
  obtain ⟨name, rfl, hf, rfl⟩ := shapeCall?_eq_some.mp hc
  simp [reads, hp, operands, hf]

/-- A line fails on a token of its own, or on a line of the body that it calls. -/
theorem execute_eq_error : execute config line m = .error fault ↔
    (∃ token ∈ reads config line m, Literal.Faulty token) ∨
      ∃ c next n, invocation? config.marker line m = some c ∧ Runs config c next n ∧
        execute config next n = .error fault := by
  cases hc : invocation? config.marker line m with
  | none =>
    simp only [reduceCtorEq, false_and, exists_false, or_false]
    cases hp : performed? config.marker line m with
    | none =>
      rcases executeWith_of_not_performed hp with hn | ⟨text, -, hn⟩
      · simp [execute, hn, reads, hp]
      · simp [execute, hn, reads, hp]
    | some p =>
      obtain ⟨shape, start⟩ := p
      have hperform : shapeCall? shape start = none := by
        simpa [invocation?, hp] using hc
      rw [execute, executeWith_of_performed hp, perform_eq_error config hperform]
      simp [reads, hp]
  | some c =>
    rw [execute_of_invocation hc, reads_of_invocation hc]
    simp only [Option.some.injEq, exists_and_left, exists_eq_left']
    by_cases ha : c.caller.Admits config
    · rw [if_pos ha, call_of_admits ha, map_eq_error, bodyEnd_eq_error ha, mapM_eq_error]
      simp only [Literal.coerce_eq_error]
    · have hok : ∃ n, call config c.function c.arguments c.caller = .ok n := by
        cases he : c.caller.exhausted with
        | true => exact ⟨_, call_of_exhausted he⟩
        | false => exact ⟨_, call_of_refused he ha⟩
      obtain ⟨n, hn⟩ := hok
      have hruns : ∀ next n, ¬ Runs config c next n := fun next n hr => ha hr.admits
      rw [if_neg ha, hn]
      simp [hruns]

/-- A statement fails exactly if a line that it runs reads an oversized list. -/
theorem execute_eq_error_iff_reached : execute config line m = .error fault ↔
    ∃ line' m', Reached config line m line' m' ∧
      ∃ token ∈ reads config line' m', Literal.Faulty token := by
  induction m using depth_induction config generalizing line with
  | step m ih =>
    rw [execute_eq_error, exists_reached_iff]
    refine or_congr_right ?_
    constructor
    · rintro ⟨c, next, n, hc, hr, he⟩
      obtain ⟨hlt, hd⟩ := hr.deeper hc
      exact ⟨c, next, n, hc, hr, (ih hlt n hd).mp he⟩
    · rintro ⟨c, next, n, hc, hr, he⟩
      obtain ⟨hlt, hd⟩ := hr.deeper hc
      exact ⟨c, next, n, hc, hr, (ih hlt n hd).mpr he⟩

end Machine

end SnippetTutor
