import SnippetTutor.Proofs.Session.Restart
import SnippetTutor.Proofs.Trace.Stage

/-! # How many steps a session takes

A session has as many steps to show as its lesson has hand-written ones, or as its source has
lines that are not skipped. What has been shown and what is ahead add up to that number in every
session that actions lead to, and the phase tells which of the two is none. A session is
therefore completed by exactly the steps that are ahead, or by a single one if there are none.
-/
namespace SnippetTutor

namespace Session
open Outcome

/-- How many steps there are to show: hand-written ones, or lines to be executed. -/
def size (s : Session) : Nat :=
  match s.authored with
  | some records => records.length
  | none => Step.countExecutable s.config.marker s.lines

/-- How many of them have not been shown yet. -/
def ahead (s : Session) : Nat :=
  match s.authored with
  | some records => records.length - s.position
  | none => Step.countExecutable s.config.marker (s.lines.drop s.cursor)

/-- What a session shows fits what it has done and what it has still to do. -/
structure Consistent (s : Session) : Prop where
  recorded : s.history.length = s.position
  counted : s.position + s.ahead = s.size
  idle : s.phase = .idle → s.position = 0
  stepping : s.phase = .stepping → 0 < s.position ∧ 0 < s.ahead
  completed : s.phase = .completed → s.ahead = 0
  console : s.console = s.history.flatMap StepRecord.outputLines
  memory : s.memory = StepRecord.lastMemory s.history
  currentLine : s.currentLine = s.history.getLast?.map StepRecord.lineNumber
  replayed : ∀ records, s.authored = some records →
    s.machine = .initial ∧ s.cursor = 0 ∧ s.history = records.take s.position

variable {config : Config} {s t u : Session} {action : Action} {actions : List Action}
  {records : List StepRecord} {k : Nat}

section Fields

theorem size_of_authored (h : s.authored = some records) : s.size = records.length := by
  rw [size, h]

theorem ahead_of_authored (h : s.authored = some records) : s.ahead = records.length - s.position := by
  rw [ahead, h]

theorem ahead_of_simulated (h : s.authored = none) :
    s.ahead = Step.countExecutable s.config.marker (s.lines.drop s.cursor) := by
  rw [ahead, h]

theorem ahead_restart (s : Session) : s.restart.ahead = s.size := by
  cases ha : s.authored with
  | none =>
    rw [ahead_of_simulated (s := s.restart) ha, size, ha]
    rfl
  | some records =>
    rw [ahead_of_authored (s := s.restart) ha, size_of_authored ha]
    rfl

theorem size_lt_stepBound (s : Session) : s.size < s.stepBound := by
  cases ha : s.authored with
  | none =>
    rw [size, stepBound, ha]
    exact Nat.lt_succ_of_le List.countP_le_length
  | some records =>
    rw [size_of_authored ha, stepBound, ha]
    exact Nat.lt_succ_self _

end Fields

theorem consistent_restart (s : Session) : s.restart.Consistent where
  recorded := rfl
  counted := by
    rw [ahead_restart]
    exact Nat.zero_add _
  idle _ := rfl
  stepping := nofun
  completed := nofun
  console := rfl
  memory := rfl
  currentLine := rfl
  replayed _ _ := ⟨rfl, rfl, rfl⟩

theorem Fresh.consistent (h : s.Fresh config) : s.Consistent := by
  rw [← h.restart_eq]
  exact consistent_restart s

/-- What a step makes of a session that is not completed. -/
inductive Moves (s : Session) : Session → Prop
  | ends : s.ahead = 0 → Moves s s.complete
  | shows {record : StepRecord} {cursor : Nat} {machine : Machine} {isLast : Bool} :
      (s.advance record cursor machine isLast).ahead + 1 = s.ahead →
      (isLast = true ↔ (s.advance record cursor machine isLast).ahead = 0) →
      (∀ records, s.authored = some records →
        records[s.position]? = some record ∧ cursor = s.cursor ∧ machine = s.machine) →
      Moves s (s.advance record cursor machine isLast)

theorem moves_replay (h : s.authored = some records) : Moves s (s.replay records) := by
  have hahead := ahead_of_authored h
  rw [replay]
  cases hr : records[s.position]? with
  | none =>
    have hlength := List.getElem?_eq_none_iff.mp hr
    exact .ends (by omega)
  | some record =>
    obtain ⟨hlt, -⟩ := List.getElem?_eq_some_iff.mp hr
    have hnext : ∀ isLast, (s.advance record s.cursor s.machine isLast).ahead = records.length - (s.position + 1) :=
      fun _ => ahead_of_authored h
    refine .shows ?_ ?_ ?_
    · rw [hnext]
      omega
    · rw [hnext, decide_eq_true_iff]
      omega
    · intro others ho
      rw [h] at ho
      cases ho
      exact ⟨hr, rfl, rfl⟩

theorem moves_simulate (h : s.authored = none) (hs : s.simulate = .ok t) : Moves s t := by
  have hahead := ahead_of_simulated h
  obtain ⟨found, ht, hs⟩ := bind_eq_ok.mp hs
  cases found with
  | none =>
    cases hs
    apply Moves.ends
    rw [hahead]
    exact Step.nextExecutable?_eq_none.mp (Step.nextExecutable?_of_take?_none ht)
  | some next =>
    cases hs
    obtain ⟨position, line, later, hn, -, hv⟩ := Step.exists_visit_of_take? ht
    obtain ⟨ran, -, hnext, -⟩ := Step.visit_eq_ok hv
    have hone := Step.countExecutable_drop hn
    rw [← hnext, ← hahead] at hone
    have hrest : ∀ isLast, (s.advance next.record next.next next.machine isLast).ahead =
        Step.countExecutable s.config.marker (s.lines.drop next.next) := fun _ => ahead_of_simulated h
    refine .shows ?_ ?_ ?_
    · rw [hrest, hone]
    · rw [hrest, Option.isNone_iff_eq_none]
      exact Step.nextExecutable?_eq_none
    · intro records hr
      rw [h] at hr
      cases hr

theorem moves_step (hp : s.phase ≠ .completed) (hs : s.step = .ok t) : Moves s t := by
  rw [step, if_neg hp] at hs
  cases ha : s.authored with
  | none =>
    simp only [ha] at hs
    exact moves_simulate ha hs
  | some records =>
    simp only [ha, Except.ok.injEq] at hs
    rw [← hs]
    exact moves_replay ha

theorem Moves.size (h : Moves s t) : t.size = s.size := by
  cases h with
  | ends => rfl
  | shows => rfl

theorem Consistent.moves (h : s.Consistent) (hm : Moves s t) : t.Consistent := by
  have hcounted := h.counted
  cases hm with
  | ends hzero =>
    refine ⟨h.recorded, h.counted, nofun, nofun, fun _ => hzero, h.console, h.memory, h.currentLine, h.replayed⟩
  | @shows record cursor machine isLast hahead hlast hreplayed =>
    refine ⟨?_, ?_, ?_, ?_, ?_, ?_, ?_, ?_, ?_⟩
    · simp [advance, h.recorded]
    · change s.position + 1 + _ = s.size
      omega
    · cases isLast <;> simp [advance]
    · intro hphase
      refine ⟨Nat.succ_pos _, Nat.pos_of_ne_zero ?_⟩
      intro hzero
      simp [advance, hlast.mpr hzero] at hphase
    · intro hphase
      apply hlast.mp
      cases isLast with
      | true => rfl
      | false => simp [advance] at hphase
    · simp [advance, h.console]
    · simp [advance, StepRecord.lastMemory]
    · simp [advance]
    · intro records hr
      obtain ⟨hmachine, hcursor, hhistory⟩ := h.replayed records hr
      obtain ⟨hrecord, rfl, rfl⟩ := hreplayed records hr
      refine ⟨hmachine, hcursor, ?_⟩
      change s.history ++ [record] = records.take (s.position + 1)
      rw [List.take_add_one, hrecord, hhistory, Option.toList_some]

theorem Consistent.step (h : s.Consistent) (hs : s.step = .ok t) : t.Consistent := by
  by_cases hp : s.phase = .completed
  · rw [Follows.step_of_completed hp] at hs
    cases hs
    exact h
  · exact h.moves (moves_step hp hs)

theorem Consistent.stepUntilCompleted (h : s.Consistent) (count : Nat) :
    (stepUntilCompleted count s).session.Consistent := by
  induction count generalizing s with
  | zero => exact h
  | succ count ih =>
    rw [Session.stepUntilCompleted]
    split
    · exact h
    · split
      · next next hn => exact ih (h.step hn)
      · exact h

theorem Consistent.reduce (h : s.Consistent) (ht : s.reduce action = .ok t) : t.Consistent := by
  cases action with
  | step => exact h.step (orFault_eq_ok.mp ht)
  | runAll =>
    have hrun := orFault_eq_ok.mp ht
    unfold Progress.result at hrun
    split at hrun
    · cases hrun
      exact (consistent_restart s).stepUntilCompleted s.stepBound
    · cases hrun
  | reset =>
    cases ht
    exact consistent_restart s
  | edit source =>
    cases ht
    exact (fresh_ofSource s.config source).consistent
  | load lesson =>
    have hfresh : t.Fresh s.config := Or.inr ⟨lesson, orFault_eq_ok.mp ht⟩
    exact hfresh.consistent
  | unknown name => cases ht

/-- Every session that actions lead to from a consistent one is consistent. -/
theorem Consistent.perform (h : s.Consistent) (ht : s.perform actions = .ok t) : t.Consistent := by
  induction actions generalizing s with
  | nil =>
    cases ht
    exact h
  | cons action rest ih =>
    obtain ⟨next, hnext, ht⟩ := bind_eq_ok.mp ht
    exact ih (h.reduce hnext) ht

theorem perform_step_succ (s : Session) (k : Nat) :
    s.perform (List.replicate (k + 1) .step) =
      orFault s.step >>= fun next => next.perform (List.replicate k .step) := by
  rw [List.replicate_succ, Session.perform, List.foldlM_cons]
  rfl

theorem perform_steps_of_completed (hp : s.phase = .completed) (k : Nat) :
    s.perform (List.replicate k .step) = .ok s := by
  induction k with
  | zero => rfl
  | succ k ih =>
    rw [perform_step_succ, Follows.step_of_completed hp]
    exact ih

/-- A session that is not completed is completed by the steps that are ahead, or by one step if
there are none, and by no fewer. -/
theorem perform_steps_completed_iff (hp : s.phase ≠ .completed) (ht : s.perform (List.replicate k .step) = .ok t) :
    t.phase = .completed ↔ max s.ahead 1 ≤ k := by
  induction k generalizing s with
  | zero =>
    cases ht
    exact iff_of_false hp (by omega)
  | succ k ih =>
    rw [perform_step_succ] at ht
    obtain ⟨next, hnext, ht⟩ := bind_eq_ok.mp ht
    cases moves_step hp (orFault_eq_ok.mp hnext) with
    | ends hzero =>
      rw [perform_steps_of_completed rfl] at ht
      cases ht
      exact iff_of_true rfl (by omega)
    | @shows record cursor machine isLast hahead hlast _ =>
      cases isLast with
      | true =>
        have hzero := hlast.mp rfl
        rw [perform_steps_of_completed (by simp [advance])] at ht
        cases ht
        exact iff_of_true (by simp [advance]) (by omega)
      | false =>
        have hmore : (s.advance record cursor machine false).ahead ≠ 0 :=
          fun hzero => Bool.false_ne_true (hlast.mpr hzero)
        rw [ih (by simp [advance]) ht]
        omega

/-- Stepping until a session is completed takes just the steps that complete it, however many are
allowed beyond these. -/
theorem stepUntilCompleted_eq_perform (hp : s.phase ≠ .completed) (count : Nat) (hc : max s.ahead 1 ≤ count) :
    orFault (stepUntilCompleted count s).result = s.perform (List.replicate (max s.ahead 1) .step) := by
  induction count generalizing s with
  | zero => omega
  | succ count ih =>
    obtain ⟨k, hk⟩ : ∃ k, max s.ahead 1 = k + 1 := ⟨max s.ahead 1 - 1, by omega⟩
    rw [hk, perform_step_succ, Session.stepUntilCompleted, if_neg hp]
    cases hn : s.step with
    | error fault => rfl
    | ok next =>
      change orFault (Session.stepUntilCompleted count next).result = next.perform (List.replicate k .step)
      by_cases hdone : next.phase = .completed
      · rw [stepUntilCompleted_of_completed hdone, perform_steps_of_completed hdone]
        rfl
      · cases moves_step hp hn with
        | ends => exact absurd rfl hdone
        | @shows record cursor machine isLast hahead hlast _ =>
          have hmore : (s.advance record cursor machine isLast).ahead ≠ 0 := by
            intro hzero
            simp [advance, hlast.mpr hzero] at hdone
          have hrest : max (s.advance record cursor machine isLast).ahead 1 = k := by omega
          rw [ih hdone (by omega), hrest]

/-- What is known of every session that actions lead to from a fresh one. It has shown as many
records as it has taken steps, and these make up what it displays; its phase tells whether any
steps are ahead. Hand-written steps are shown in order, and nothing is run for them. Exactly the
steps that are ahead, or one if there are none, complete the session, and further ones change
nothing; running to the end is taking these steps from the beginning. -/
theorem session_takes_size_steps {config : Config} {s t : Session} {actions : List Action}
    (hs : s.Fresh config) (ht : s.perform actions = .ok t) :
    t.history.length = t.position ∧ t.position ≤ t.size ∧
    (t.phase = .idle → t.position = 0) ∧
    (t.phase = .stepping → 0 < t.position ∧ t.position < t.size) ∧
    (t.phase = .completed → t.position = t.size) ∧
    t.console = t.history.flatMap StepRecord.outputLines ∧
    t.memory = StepRecord.lastMemory t.history ∧
    t.currentLine = t.history.getLast?.map StepRecord.lineNumber ∧
    (∀ records, t.authored = some records → t.machine = .initial ∧ t.cursor = 0 ∧ t.history <+: records ∧
      ∃ u, t.reduce .step = .ok u) ∧
    (t.phase ≠ .completed → ∀ k u, t.perform (List.replicate k .step) = .ok u →
      (u.phase = .completed ↔ max (t.size - t.position) 1 ≤ k)) ∧
    (t.phase = .completed → t.reduce .step = .ok t) ∧
    t.reduce .runAll = t.restart.perform (List.replicate (max t.size 1) .step) ∧
    ∀ u, t.reduce .runAll = .ok u → u.phase = .completed := by
  have h := hs.consistent.perform ht
  have hcounted := h.counted
  have hahead : t.ahead = t.size - t.position := by omega
  refine ⟨h.recorded, by omega, h.idle, ?_, ?_, h.console, h.memory, h.currentLine, ?_, ?_, ?_, ?_, ?_⟩
  · intro hp
    have hstepping := h.stepping hp
    exact ⟨hstepping.1, by omega⟩
  · intro hp
    have hcompleted := h.completed hp
    omega
  · intro records hr
    obtain ⟨hmachine, hcursor, hhistory⟩ := h.replayed records hr
    refine ⟨hmachine, hcursor, ?_, ?_⟩
    · rw [hhistory]
      exact List.take_prefix _ _
    · by_cases hp : t.phase = .completed
      · exact ⟨t, orFault_eq_ok.mpr (Follows.step_of_completed hp)⟩
      · refine ⟨t.replay records, orFault_eq_ok.mpr ?_⟩
        rw [Session.step, if_neg hp, hr]
  · intro hp k u hu
    rw [← hahead]
    exact perform_steps_completed_iff hp hu
  · intro hp
    exact orFault_eq_ok.mpr (Follows.step_of_completed hp)
  · have hbound := size_lt_stepBound t
    have hactive : t.restart.phase ≠ .completed := by
      intro hp
      cases hp
    have hrun := stepUntilCompleted_eq_perform hactive t.stepBound (by rw [ahead_restart]; omega)
    rw [ahead_restart] at hrun
    exact hrun
  · intro u hu
    exact reduce_runAll_completed hu

/-- A source with a line to skip after each one to execute. -/
def spaced : Text := "x = 1\n# c\nprint(x)\n#".toList

/-- The session of a lesson with an empty list of steps. -/
def unwritten : Session := { ofSource {} spaced with authored := some [] }

/-- A lesson without steps is completed by one step that shows nothing, and a source by as many as
it has lines to execute, wherever the comments stand. -/
theorem session_takes_size_steps_spaced :
    (ofSource {} spaced).perform [.step, .load ⟨spaced, some []⟩] = .ok unwritten ∧ unwritten.size = 0 ∧
    unwritten.perform [.step] = .ok unwritten.complete ∧ unwritten.complete.phase = .completed ∧
    ∃ t, (ofSource {} spaced).perform [.step, .reset, .step] = .ok t ∧ t.phase = .stepping ∧
      t.position = 1 ∧ t.size = 2 ∧ t.reduce .runAll = t.restart.perform [.step, .step] := by
  have hfresh := fresh_ofSource {} spaced
  have hu : (ofSource {} spaced).perform [.step, .load ⟨spaced, some []⟩] = .ok unwritten :=
    eq_ok_of_toOption (by decide +kernel)
  have hstep : unwritten.perform [.step] = .ok unwritten.complete := eq_ok_of_toOption (by decide +kernel)
  have ht := Option.eq_some_of_isSome
    (o := ((ofSource {} spaced).perform [.step, .reset, .step]).toOption) (by decide +kernel)
  obtain ⟨-, -, -, -, -, -, -, -, -, hexact, -⟩ := session_takes_size_steps hfresh hu
  obtain ⟨-, -, -, -, -, -, -, -, -, -, -, hrun, -⟩ := session_takes_size_steps hfresh (eq_ok_of_toOption ht)
  have hdone := (hexact (by decide) 1 _ hstep).mpr (by decide)
  exact ⟨hu, rfl, hstep, hdone, _, eq_ok_of_toOption ht, by decide +kernel, by decide +kernel,
    by decide +kernel, hrun⟩

end Session

end SnippetTutor
