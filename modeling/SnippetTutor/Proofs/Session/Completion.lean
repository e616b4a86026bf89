import SnippetTutor.Proofs.Session.Course

/-! # Sessions come to their end

Each step of a session that is not completed either completes it or leaves less to show: fewer
hand-written steps where these are replayed, and otherwise fewer lines after the cursor. Running
to the end therefore ends in a completed session, unless a step fails.
-/
namespace SnippetTutor.Session
open Outcome

/-- What is still to be shown at most: hand-written steps, or lines after the cursor. -/
def remaining (s : Session) : Nat :=
  match s.authored with
  | some records => records.length - s.position
  | none => s.lines.length - s.cursor

variable {s t : Session} {records : List StepRecord} {count : Nat}

theorem remaining_of_authored (h : s.authored = some records) : s.remaining = records.length - s.position := by
  rw [remaining, h]

theorem remaining_of_simulated (h : s.authored = none) : s.remaining = s.lines.length - s.cursor := by
  rw [remaining, h]

section Advance
variable (record : StepRecord) (cursor : Nat) (machine : Machine) (isLast : Bool)

theorem remaining_advance_of_authored (h : s.authored = some records) :
    (s.advance record cursor machine isLast).remaining = records.length - (s.position + 1) :=
  remaining_of_authored h

theorem remaining_advance_of_simulated (h : s.authored = none) :
    (s.advance record cursor machine isLast).remaining = s.lines.length - cursor :=
  remaining_of_simulated h

end Advance

theorem replay_remaining (h : s.authored = some records) :
    (s.replay records).phase = .completed ∨ (s.replay records).remaining < s.remaining := by
  rw [replay]
  cases hr : records[s.position]? with
  | none => exact Or.inl rfl
  | some record =>
    by_cases hlast : records.length ≤ s.position + 1
    · left
      simp [advance, hlast]
    · right
      have hnext := remaining_advance_of_authored record s.cursor s.machine (records.length ≤ s.position + 1) h
      rw [hnext, remaining_of_authored h]
      omega

theorem simulate_remaining (h : s.authored = none) (hs : s.simulate = .ok t) :
    t.phase = .completed ∨ t.remaining < s.remaining := by
  obtain ⟨found, ht, hs⟩ := bind_eq_ok.mp hs
  cases found with
  | none =>
    cases hs
    exact Or.inl rfl
  | some next =>
    cases hs
    right
    have hcursor := Step.lt_next_of_take? ht
    have hnext := remaining_advance_of_simulated next.record next.next next.machine
      (Step.nextExecutable? s.config.marker s.lines next.next).isNone h
    rw [hnext, remaining_of_simulated h]
    omega

theorem step_remaining (hp : s.phase ≠ .completed) (h : s.step = .ok t) :
    t.phase = .completed ∨ t.remaining < s.remaining := by
  rw [step, if_neg hp] at h
  cases ha : s.authored with
  | none =>
    simp only [ha] at h
    exact simulate_remaining ha h
  | some records =>
    simp only [ha, Except.ok.injEq] at h
    rw [← h]
    exact replay_remaining ha

theorem stepUntilCompleted_of_completed (h : s.phase = .completed) (count : Nat) :
    stepUntilCompleted count s = ⟨s, none⟩ := by
  cases count with
  | zero => rfl
  | succ count => rw [stepUntilCompleted, if_pos h]

theorem stepUntilCompleted_completed (hc : s.remaining < count)
    (h : (stepUntilCompleted count s).result = .ok t) : t.phase = .completed := by
  induction count generalizing s with
  | zero => omega
  | succ count ih =>
    by_cases hp : s.phase = .completed
    · rw [stepUntilCompleted_of_completed hp] at h
      cases h
      exact hp
    · rw [stepUntilCompleted, if_neg hp] at h
      cases hn : s.step with
      | error fault =>
        simp only [hn] at h
        cases h
      | ok next =>
        simp only [hn] at h
        rcases step_remaining hp hn with hdone | hless
        · rw [stepUntilCompleted_of_completed hdone] at h
          cases h
          exact hdone
        · exact ih (by omega) h

theorem remaining_restart_lt (s : Session) : s.restart.remaining < s.stepBound := by
  cases ha : s.authored with
  | none =>
    have hrestart : s.restart.authored = none := ha
    rw [remaining_of_simulated hrestart, stepBound, ha]
    exact Nat.lt_succ_of_le (Nat.sub_le _ _)
  | some records =>
    have hrestart : s.restart.authored = some records := ha
    rw [remaining_of_authored hrestart, stepBound, ha]
    exact Nat.lt_succ_of_le (Nat.sub_le _ _)

/-- A run to the end leaves nothing to show. -/
theorem reduce_runAll_completed (h : s.reduce .runAll = .ok t) : t.phase = .completed :=
  stepUntilCompleted_completed (remaining_restart_lt s) (orFault_eq_ok.mp h)

end SnippetTutor.Session
