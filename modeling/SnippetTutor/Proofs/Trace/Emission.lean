import SnippetTutor.Proofs.Machine.Limits
import SnippetTutor.Proofs.Machine.Sequence
import SnippetTutor.Proofs.Machine.Unwinding
import SnippetTutor.Proofs.Trace.Stage

/-! # What the records tell of the output

A record takes what its step has printed off the end of the output. That is right because
statements only ever add to the output, at every depth of calls, and because a limit that
is hit in one statement leaves nothing behind for the next one.
-/
namespace SnippetTutor
open Outcome

namespace StepRecord
variable {added : List Text}

theorem joinOutput_eq_none : joinOutput added = none ↔ added = [] := by
  cases added <;> simp [joinOutput]

theorem joinOutput_of_ne_nil (h : added ≠ []) : joinOutput added = some (Text.joinWith ['\n'] added) := by
  cases added with
  | nil => exact absurd rfl h
  | cons line rest => rfl

end StepRecord

open Machine

/-- A statement only adds to the output and to the account of calls and comes back to its
level of calls. It leaves a live machine exhausted only inside a call, and then with the
message as the last line of the output. After any statements the machine is therefore as
it was at the start but for what they have made, and the records of a run hold exactly
the lines that its steps have printed. -/
theorem statements_append_and_unwind (config : Config) :
    (∀ (line : Text) (m n : Machine), execute config line m = .ok n →
      m.output <+: n.output ∧ m.calls ≤ n.calls ∧ n.depth = m.depth ∧ n.callFloor = m.callFloor ∧
      (m.exhausted = false → n.exhausted = true →
        0 < m.depth ∧ n.output.getLast? = some recursionMessage)) ∧
    (∀ m, Reachable config m → m.depth = 0 ∧ m.callFloor = 0 ∧ m.exhausted = false) ∧
    (∀ lines T, Trace.ofLines config lines = .ok T → ∃ stages last,
      Step.Stages config lines 0 0 .initial stages last ∧
      T.records = (stages.map fun s => s.step.record) ∧
      T.output = stages.flatMap Stage.added ∧
      ∀ s ∈ stages, s.step.machine.output = s.before.output ++ s.added ∧
        (s.step.record.output = none ↔ s.added = []) ∧
        (s.added ≠ [] → s.step.record.output = some (Text.joinWith ['\n'] s.added))) := by
  refine ⟨?_, ?_, ?_⟩
  · intro line m n h
    have hext := execute_extends h
    have hreturned := execute_returned h
    refine ⟨hext.output, hext.calls, hreturned.depth, hreturned.callFloor, ?_⟩
    intro hlive hn
    have hunwinds := execute_unwinds h hlive hn
    exact ⟨hreturned.depth ▸ hunwinds.inside, hunwinds.message⟩
  · intro m h
    exact ⟨h.depth, h.returned.callFloor, h.live⟩
  · intro lines T hT
    obtain ⟨stages, last, hstages, hrecords, -, houtput⟩ := Trace.exists_stages hT
    refine ⟨stages, last, hstages, hrecords, houtput, ?_⟩
    intro s hs
    obtain ⟨position, hat⟩ := hstages.exists_at s hs
    obtain ⟨hadded, hrecord⟩ := Step.visit_added hat.visit
    refine ⟨hadded, ?_, ?_⟩
    · rw [hrecord]
      exact StepRecord.joinOutput_eq_none
    · intro hne
      rw [hrecord]
      exact StepRecord.joinOutput_of_ne_nil hne

/-- The endless function runs into the limit. Called from inside a call it leaves the caller
exhausted, and called by a statement it leaves nothing behind; the records of such a run show
what each of its steps has printed. -/
theorem statements_append_and_unwind_endless :
    ∃ inner last T, execute { maxDepth := 2 } "f()".toList { endless with depth := 1 } = .ok inner ∧
      inner.exhausted = true ∧ inner.depth = 1 ∧ inner.output.getLast? = some recursionMessage ∧
      executeAll { maxDepth := 1 } ["def f():".toList, " f()".toList, "f()".toList] .initial = .ok last ∧
      last.output = [recursionMessage] ∧ last.depth = 0 ∧ last.exhausted = false ∧
      Trace.ofLines { maxDepth := 1 } ["def f():".toList, " f()".toList, "f()".toList] = .ok T ∧
      T.records.map StepRecord.output = [none, none, some recursionMessage] ∧
      ∃ stages : List Stage, T.records = (stages.map fun s => s.step.record) ∧
        T.output = stages.flatMap Stage.added := by
  have hinner := Option.eq_some_of_isSome
    (o := (execute { maxDepth := 2 } "f()".toList { endless with depth := 1 }).toOption) (by decide +kernel)
  have hlast := Option.eq_some_of_isSome (o := (executeAll { maxDepth := 1 }
    ["def f():".toList, " f()".toList, "f()".toList] .initial).toOption) (by decide +kernel)
  have hT := Option.eq_some_of_isSome (o := (Trace.ofLines { maxDepth := 1 }
    ["def f():".toList, " f()".toList, "f()".toList]).toOption) (by decide +kernel)
  obtain ⟨-, -, hdepth, -, hunwinds⟩ :=
    (statements_append_and_unwind _).1 _ _ _ (eq_ok_of_toOption hinner)
  obtain ⟨hback, -, hlive⟩ :=
    (statements_append_and_unwind _).2.1 _ ⟨_, eq_ok_of_toOption hlast⟩
  obtain ⟨stages, -, -, hrecords, houtput, -⟩ :=
    (statements_append_and_unwind _).2.2 _ _ (eq_ok_of_toOption hT)
  exact ⟨_, _, _, eq_ok_of_toOption hinner, by decide +kernel, hdepth,
    (hunwinds rfl (by decide +kernel)).2, eq_ok_of_toOption hlast, by decide +kernel, hback, hlive,
    eq_ok_of_toOption hT, by decide +kernel, stages, hrecords, houtput⟩

end SnippetTutor
