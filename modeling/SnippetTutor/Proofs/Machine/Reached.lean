import SnippetTutor.Proofs.Machine.Recursion

/-! # The lines that a statement runs

A statement runs itself and, where it calls a function, lines of that function's body,
each in the machine that the lines before it have made. What happens anywhere inside a
statement happens at one of these lines.
-/
namespace SnippetTutor.Machine
open Outcome

variable {config : Config} {line line' : Text} {m m' n : Machine} {c : Invocation}

section Body
variable {execute : Text → Machine → Except Fault Machine} {body : List Text}

/-- One more line of a body, unless the calls unwind already. -/
def resume (execute : Text → Machine → Except Fault Machine) (m : Machine) (line : Text) :
    Except Fault Machine :=
  if m.exhausted then .ok m else execute line m

theorem foldlM_resume_of_exhausted (h : m.exhausted = true) : body.foldlM (resume execute) m = .ok m := by
  induction body with
  | nil => rfl
  | cons line rest ih =>
    rw [List.foldlM_cons, resume, if_pos h]
    exact ih

theorem runBody_eq_foldlM (h : m.exhausted = false) :
    runBody execute body m = body.foldlM (resume execute) m := by
  induction body generalizing m with
  | nil => rfl
  | cons line rest ih =>
    rw [List.foldlM_cons, resume, if_neg (by simp [h]), runBody]
    cases execute line m with
    | error fault => rfl
    | ok next =>
      simp only [Bind.bind, Except.bind]
      by_cases hn : next.exhausted = true
      · rw [if_pos hn, foldlM_resume_of_exhausted hn]
      · rw [if_neg hn, ih (by simpa using hn)]

end Body

/-- A line of the called body is run in the machine `m`: the call goes through, and the
lines before it have been run without hitting a limit. -/
structure Runs (config : Config) (c : Invocation) (line : Text) (m : Machine) : Prop where
  admits : c.caller.Admits config
  started : ∃ values done rest,
    (Arguments.split c.arguments).mapM (Literal.coerce c.caller.memory) = .ok values ∧
    c.function.body = done ++ line :: rest ∧
    runBody (execute config) done (c.caller.enter c.function values) = .ok m
  live : m.exhausted = false

/-- The lines that are run when a line is executed, with the machines in which they are. -/
inductive Reached (config : Config) : Text → Machine → Text → Machine → Prop
  | here {line : Text} {m : Machine} : Reached config line m line m
  | inside {line next line' : Text} {m n m' : Machine} {c : Invocation} :
      invocation? config.marker line m = some c → Runs config c next n →
      Reached config next n line' m' → Reached config line m line' m'

theorem Runs.depth (h : Runs config c line m) : m.depth = c.caller.depth + 1 := by
  obtain ⟨values, done, rest, -, -, hrun⟩ := h.started
  exact (respected_depth config.scope).runBody (fun _ _ _ => execute_depth) hrun

theorem Runs.extends (h : Runs config c line m) : c.caller.Extends m := by
  obtain ⟨values, done, rest, -, -, hrun⟩ := h.started
  have hbody := (respected_extends config.scope).runBody (fun _ _ _ => execute_extends) hrun
  exact (enter_extends c.caller c.function values).trans hbody

theorem Runs.deeper (h : Runs config c line' n) (hc : invocation? config.marker line m = some c) :
    m.depth < config.maxDepth ∧ n.depth = m.depth + 1 := by
  rw [← invocation?_depth hc]
  exact ⟨h.admits.2.2, h.depth⟩

/-- Something holds of a line that is reached if it holds of the line itself, or of one
that is reached from a body that the line runs. -/
theorem exists_reached_iff {P : Text → Machine → Prop} :
    (∃ line' m', Reached config line m line' m' ∧ P line' m') ↔
      P line m ∨ ∃ c next n, invocation? config.marker line m = some c ∧ Runs config c next n ∧
        ∃ line' m', Reached config next n line' m' ∧ P line' m' := by
  constructor
  · rintro ⟨line', m', hreached, hP⟩
    cases hreached with
    | here => exact Or.inl hP
    | inside hc hr hin => exact Or.inr ⟨_, _, _, hc, hr, line', m', hin, hP⟩
  · rintro (hP | ⟨c, next, n, hc, hr, line', m', hin, hP⟩)
    · exact ⟨line, m, .here, hP⟩
    · exact ⟨line', m', .inside hc hr hin, hP⟩

theorem bodyEnd_eq_error {fault : Fault} (h : c.caller.Admits config) :
    bodyEnd config c.function c.arguments c.caller = .error fault ↔
      (Arguments.split c.arguments).mapM (Literal.coerce c.caller.memory) = .error fault ∨
        ∃ next n, Runs config c next n ∧ execute config next n = .error fault := by
  simp only [bodyEnd, bind_eq_error, reduceCtorEq, and_false, exists_false, or_false]
  refine or_congr_right ?_
  constructor
  · rintro ⟨values, hvalues, hrun⟩
    rw [runBody_eq_foldlM rfl] at hrun
    obtain ⟨done, next, rest, n, hbody, hdone, hnext⟩ := foldlM_eq_error.mp hrun
    by_cases hn : n.exhausted = true
    · rw [resume, if_pos hn] at hnext
      cases hnext
    · rw [resume, if_neg hn] at hnext
      rw [← runBody_eq_foldlM rfl] at hdone
      exact ⟨next, n, ⟨h, ⟨values, done, rest, hvalues, hbody, hdone⟩, by simpa using hn⟩, hnext⟩
  · rintro ⟨next, n, ⟨-, ⟨values, done, rest, hvalues, hbody, hdone⟩, hn⟩, hnext⟩
    refine ⟨values, hvalues, ?_⟩
    rw [runBody_eq_foldlM rfl] at hdone ⊢
    refine foldlM_eq_error.mpr ⟨done, next, rest, n, hbody, hdone, ?_⟩
    rw [resume, if_neg (by simp [hn])]
    exact hnext

end SnippetTutor.Machine
