import SnippetTutor.Proofs.Machine.Core
import SnippetTutor.Proofs.Machine.Evaluation

/-! # How calls unwind

Only a refused call makes a live machine exhausted. Every body around the call ends at
once, so that the line which tells of the refusal stays the last line of the output up to
the outermost call, where the machine is live again.
-/
namespace SnippetTutor.Machine
open Outcome

/-- The machine unwinds: a call was refused inside a call, and nothing was printed since. -/
structure Unwinds (m : Machine) : Prop where
  inside : 0 < m.depth
  message : m.output.getLast? = some recursionMessage

variable {config : Config} {caller : Caller} {marker line : Text} {job : Job} {m n inner : Machine}
  {w : Work} {c : Invocation}

theorem executeWith_exhausted (h : invocation? marker line m = none)
    (hx : executeWith caller marker line m = .ok n) : n.exhausted = m.exhausted := by
  rw [executeWith_core h] at hx
  obtain ⟨k, -, rfl⟩ := map_eq_ok.mp hx
  rfl

theorem invocation?_exhausted (h : invocation? marker line m = some c) :
    c.caller.exhausted = m.exhausted := by
  rcases invocation?_caller h with hc | hc <;> simp [hc]

theorem Unwinds.closeDefinition (h : m.Unwinds) : m.closeDefinition.Unwinds :=
  ⟨by simpa using h.inside, by simpa using h.message⟩

/-- A live machine that is exhausted after an evaluation unwinds from there on. -/
theorem Evaluates.unwinds (h : Evaluates config job m w (.ok n)) (hlive : m.exhausted = false)
    (hn : n.exhausted = true) : n.Unwinds := by
  generalize hr : Except.ok n = r at h
  induction h generalizing n with
  | own hc =>
    rw [executeWith_exhausted hc hr.symm, hlive] at hn
    cases hn
  | unwinding hc he =>
    rw [invocation?_exhausted hc, hlive] at he
    cases he
  | @refused line m c hc _ _ =>
    cases hr
    refine ⟨of_decide_eq_true hn, ?_⟩
    rw [abandon_output, List.getLast?_concat]
  | @entered line m c values w r hc _ _ _ ih =>
    obtain ⟨inner, rfl, rfl⟩ := map_eq_ok.mp hr.symm
    -- The caller unwinds too, if it is itself inside a call.
    simp only [leave_exhausted, closeDefinition_exhausted, Bool.and_eq_true, decide_eq_true_eq] at hn
    have hbody := (ih rfl hn.1 rfl).closeDefinition
    exact ⟨hn.2, hbody.message⟩
  | done =>
    cases hr
    rw [hlive] at hn
    cases hn
  | unread | faulty => cases hr
  | last _ _ ih => exact ih hlive hn hr
  | next _ hnext _ _ ihrest => exact ihrest hnext hn hr

theorem execute_unwinds (h : execute config line m = .ok n) (hlive : m.exhausted = false)
    (hn : n.exhausted = true) : n.Unwinds := by
  obtain ⟨w, hw⟩ := exists_evaluates config line m
  rw [h] at hw
  exact hw.unwinds hlive hn

end SnippetTutor.Machine
