import SnippetTutor.Proofs.Machine.Sequence
import SnippetTutor.Proofs.Trace.Iteration

/-! # The walk of a run

A run takes a step on each line that is not skipped. It ends as the lines end when they are
executed one after another, except that its last step completes an open definition.
-/
namespace SnippetTutor
open Outcome Machine

namespace Run

variable {config : Config} {line : Text} {lines later : List Text} {position count : Nat}
  {m last : Machine} {records : List StepRecord} {fault : Fault} {step : Step}

theorem walk_of_skippable (hs : isSkippable config.marker line = true) :
    walk config position count m (line :: later) = walk config (position + 1) count m later := by
  rw [walk, if_pos hs]

theorem walk_of_visit (hs : isSkippable config.marker line = false)
    (hv : Step.visit config count position line later m = .ok step) :
    walk config position count m (line :: later) =
      (walk config (position + 1) (count + 1) step.machine later).prepend step.record := by
  rw [walk, if_neg (by simp [hs]), hv]
  rfl

theorem walk_of_fault (hs : isSkippable config.marker line = false)
    (hv : Step.visit config count position line later m = .error fault) :
    walk config position count m (line :: later) = ⟨[], .error fault⟩ := by
  rw [walk, if_neg (by simp [hs]), hv]

theorem walk_of_isLast (h : Step.isLast config.marker lines = true) :
    walk config position count m lines = ⟨[], .ok m⟩ := by
  induction lines generalizing position with
  | nil => rfl
  | cons line rest ih =>
    simp only [Step.isLast, List.all_cons, Bool.and_eq_true] at h
    rw [walk_of_skippable h.1]
    exact ih h.2

/-- A run that comes to its end takes a step on the first line that is not skipped. -/
theorem exists_visit_of_walk (hs : isSkippable config.marker line = false)
    (h : walk config position count m (line :: later) = ⟨records, .ok last⟩) :
    ∃ step rest, Step.visit config count position line later m = .ok step ∧
      walk config (position + 1) (count + 1) step.machine later = ⟨rest, .ok last⟩ ∧
      records = step.record :: rest := by
  rw [walk, if_neg (by simp [hs])] at h
  cases hv : Step.visit config count position line later m with
  | error fault => simp [hv] at h
  | ok step =>
    simp only [hv, Run.mk.injEq] at h
    obtain ⟨rfl, hlast⟩ := h
    exact ⟨step, _, rfl, by rw [← hlast], rfl⟩

/-- The machine in which a run ends, given the one in which its lines end. -/
def finish (marker : Text) (lines : List Text) (m : Machine) : Machine :=
  if Step.isLast marker lines then m else m.closeDefinition

theorem finish_output (marker : Text) (lines : List Text) (m : Machine) :
    (finish marker lines m).output = m.output := by
  unfold finish
  split
  · rfl
  · exact closeDefinition_output m

theorem walk_ending (config : Config) (lines : List Text) (position count : Nat) (m : Machine) :
    (walk config position count m lines).ending =
      (executeAll config lines m).map (finish config.marker lines) := by
  induction lines generalizing position count m with
  | nil => rfl
  | cons line rest ih =>
    rw [executeAll_cons]
    cases hs : isSkippable config.marker line with
    | true =>
      have hfinish : finish config.marker (line :: rest) = finish config.marker rest := by
        funext n
        simp [finish, Step.isLast, hs]
      rw [walk_of_skippable hs, execute_of_skippable hs, ih, hfinish]
      rfl
    | false =>
      have hfinish : finish config.marker (line :: rest) = closeDefinition := by
        funext n
        simp [finish, Step.isLast, hs]
      rw [walk, if_neg (by simp [hs]), Step.visit, hfinish]
      cases execute config line m with
      | error fault => rfl
      | ok ran =>
        change (walk config (position + 1) (count + 1)
          (if Step.isLast config.marker rest then ran.closeDefinition else ran) rest).ending =
            (executeAll config rest ran).map closeDefinition
        cases hlast : Step.isLast config.marker rest with
        | true =>
          rw [if_pos rfl, walk_of_isLast hlast, executeAll_of_skippable hlast]
          rfl
        | false =>
          have hrest : finish config.marker rest = closeDefinition := by
            funext n
            simp [finish, hlast]
          rw [if_neg Bool.false_ne_true, ih, hrest]

theorem walk_ending_eq_error : (walk config position count m lines).ending = .error fault ↔
    executeAll config lines m = .error fault := by
  rw [walk_ending, map_eq_error]

end Run

/-- Lines that can be executed one after another have a trace. -/
theorem Trace.exists_of_executeAll {config : Config} {lines : List Text} {m : Machine}
    (h : executeAll config lines .initial = .ok m) :
    ∃ T, ofLines config lines = .ok T ∧ T.memory = (Run.finish config.marker lines m).memory := by
  have hending := Run.walk_ending config lines 0 0 .initial
  rw [h] at hending
  exact ⟨_, bind_eq_ok.mpr ⟨_, hending, rfl⟩, rfl⟩

end SnippetTutor
