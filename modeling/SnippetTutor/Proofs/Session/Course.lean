import SnippetTutor.Proofs.Trace.Iteration
import SnippetTutor.Session.Action

/-! # The course of a session

A session that simulates its snippet is at every moment on its way through one run: it
has shown the first records of the run, and the run from its cursor on holds the others.
Each step keeps this, and a restart loses nothing but the progress.
-/
namespace SnippetTutor

/-- Whether an action leaves a session with the snippet or lesson that it has. -/
def Action.keepsSource : Action → Bool
  | .step | .runAll | .reset => true
  | .edit _ | .load _ | .unknown _ => false

namespace Session
open Outcome

/-- The session that a series of actions leads to, where none of them is refused. -/
def perform (s : Session) (actions : List Action) : Except Refusal Session :=
  actions.foldlM reduce s

/-- A simulating session on its way through a run. -/
structure Follows (r : Run) (s : Session) : Prop where
  simulated : s.authored = none
  ahead : Run.walk s.config s.cursor s.position s.machine (s.lines.drop s.cursor) =
    ⟨r.records.drop s.position, r.ending⟩
  history : s.history = r.records.take s.position
  counted : s.position ≤ r.records.length
  memory : s.memory = StepRecord.lastMemory s.history
  console : s.console = s.history.flatMap StepRecord.outputLines
  inside : s.cursor ≤ s.lines.length
  finished : s.phase = .completed → s.position = r.records.length ∧ r.ending = .ok s.machine

theorem follows_ofSource (config : Config) (source : Text) :
    Follows (Run.ofLines config (Text.lines source)) (ofSource config source) where
  simulated := rfl
  ahead := rfl
  history := rfl
  counted := Nat.zero_le _
  memory := rfl
  console := rfl
  inside := Nat.zero_le _
  finished := nofun

variable {r : Run} {s t : Session} {fault : Fault}

namespace Follows

theorem step_of_completed (h : s.phase = .completed) : s.step = .ok s := by
  rw [step, if_pos h]

theorem step_of_active (h : Follows r s) (hp : s.phase ≠ .completed) : s.step = s.simulate := by
  rw [step, if_neg hp, h.simulated]

/-- Where no step is left, all records have been shown and the run has ended. -/
theorem all_shown (h : Follows r s)
    (ht : Step.take? s.config s.lines s.cursor s.machine s.position = .ok none) :
    s.position = r.records.length ∧ r.ending = .ok s.machine := by
  have hahead := h.ahead
  rw [Run.walk_eq_take?, ht] at hahead
  simp only [Run.mk.injEq] at hahead
  have hlength := List.drop_eq_nil_iff.mp hahead.1.symm
  exact ⟨Nat.le_antisymm h.counted hlength, hahead.2.symm⟩

theorem complete (h : Follows r s)
    (ht : Step.take? s.config s.lines s.cursor s.machine s.position = .ok none) :
    Follows r s.complete :=
  ⟨h.simulated, h.ahead, h.history, h.counted, h.memory, h.console, h.inside, fun _ => h.all_shown ht⟩

variable {next : Step}

theorem next_shown (h : Follows r s)
    (ht : Step.take? s.config s.lines s.cursor s.machine s.position = .ok (some next)) :
    r.records[s.position]? = some next.record ∧
      Run.walk s.config next.next (s.position + 1) next.machine (s.lines.drop next.next) =
        ⟨r.records.drop (s.position + 1), r.ending⟩ := by
  have hahead := h.ahead
  rw [Run.walk_eq_take?, ht] at hahead
  simp only [Run.prepend, Run.mk.injEq] at hahead
  obtain ⟨hrecords, hending⟩ := hahead
  constructor
  · rw [← List.head?_drop, ← hrecords, List.head?_cons]
  · rw [← List.drop_drop, ← hrecords, List.drop_one, List.tail_cons, ← hending]

theorem advance (h : Follows r s)
    (ht : Step.take? s.config s.lines s.cursor s.machine s.position = .ok (some next)) :
    Follows r (s.advance next.record next.next next.machine
      (Step.nextExecutable? s.config.marker s.lines next.next).isNone) := by
  obtain ⟨hnext, hrest⟩ := h.next_shown ht
  have hinside := (Step.lt_next_of_take? ht).2
  have hlt : s.position < r.records.length := (List.getElem?_eq_some_iff.mp hnext).1
  have hhistory : s.history ++ [next.record] = r.records.take (s.position + 1) := by
    rw [List.take_add_one, hnext, h.history, Option.toList_some]
  refine ⟨h.simulated, hrest, hhistory, hlt, ?_, ?_, hinside, ?_⟩
  · simp [Session.advance, StepRecord.lastMemory]
  · simp [Session.advance, h.console]
  · intro hdone
    cases hl : Step.nextExecutable? s.config.marker s.lines next.next with
    | some position => simp [Session.advance, hl] at hdone
    | none =>
      rw [Run.walk_eq_take?, Step.take?_of_no_executable hl] at hrest
      simp only [Run.mk.injEq] at hrest
      have hlength := List.drop_eq_nil_iff.mp hrest.1.symm
      exact ⟨Nat.le_antisymm hlt hlength, hrest.2.symm⟩

theorem ending_of_step_error (h : Follows r s) (he : s.step = .error fault) :
    r.ending = .error fault := by
  by_cases hp : s.phase = .completed
  · rw [step_of_completed hp] at he
    cases he
  · rw [h.step_of_active hp, simulate] at he
    have hahead := h.ahead
    rw [Run.walk_eq_take?] at hahead
    rcases bind_eq_error.mp he with ht | ⟨found, -, hf⟩
    · rw [ht] at hahead
      simp only [Run.mk.injEq] at hahead
      exact hahead.2.symm
    · cases found <;> cases hf

/-- A step keeps a session on its way, shows the next record if there is one, and comes
closer to the end of the source. -/
theorem step_ok (h : Follows r s) (hs : s.step = .ok t) :
    Follows r t ∧ t.lines = s.lines ∧ t.position = min (s.position + 1) r.records.length ∧
      (t.phase = .completed ∨ s.cursor < t.cursor) := by
  by_cases hp : s.phase = .completed
  · rw [step_of_completed hp] at hs
    cases hs
    have hf := (h.finished hp).1
    exact ⟨h, rfl, by omega, Or.inl hp⟩
  · rw [h.step_of_active hp] at hs
    obtain ⟨found, ht, hs⟩ := bind_eq_ok.mp hs
    cases found with
    | none =>
      cases hs
      have hall := (h.all_shown ht).1
      refine ⟨h.complete ht, rfl, ?_, Or.inl rfl⟩
      change s.position = _
      omega
    | some next =>
      cases hs
      have hcursor := (Step.lt_next_of_take? ht).1
      have hnext := (h.next_shown ht).1
      have hlt : s.position < r.records.length := (List.getElem?_eq_some_iff.mp hnext).1
      refine ⟨h.advance ht, rfl, ?_, Or.inr hcursor⟩
      change s.position + 1 = _
      omega

end Follows

/-- Single steps show the records one by one, and never fail on a run without a fault. -/
theorem Follows.perform_steps (h : Follows r s) {last : Machine} (hr : r.ending = .ok last) (k : Nat) :
    ∃ t, s.perform (List.replicate k .step) = .ok t ∧ Follows r t ∧
      t.position = min (s.position + k) r.records.length := by
  induction k generalizing s with
  | zero => exact ⟨s, rfl, h, (Nat.min_eq_left h.counted).symm⟩
  | succ k ih =>
    rcases ok_or_error s.step with ⟨next, hn⟩ | ⟨fault, hf⟩
    · obtain ⟨hnext, -, hp, -⟩ := h.step_ok hn
      obtain ⟨t, ht, hf, hk⟩ := ih hnext
      refine ⟨t, ?_, hf, by omega⟩
      rw [List.replicate_succ, perform, List.foldlM_cons, reduce, hn]
      exact ht
    · have he := h.ending_of_step_error hf
      rw [hr] at he
      cases he

/-- Stepping often enough completes a session, unless its run has a fault. -/
theorem Follows.stepUntilCompleted (h : Follows r s) {count : Nat}
    (hc : s.lines.length + 1 ≤ s.cursor + count) :
    (∃ t, (stepUntilCompleted count s).result = .ok t ∧ t.phase = .completed ∧ Follows r t) ∨
      ∃ fault, (stepUntilCompleted count s).result = .error fault ∧ r.ending = .error fault := by
  induction count generalizing s with
  | zero =>
    have hi := h.inside
    omega
  | succ count ih =>
    rw [Session.stepUntilCompleted]
    by_cases hp : s.phase = .completed
    · rw [if_pos hp]
      exact Or.inl ⟨s, rfl, hp, h⟩
    · rw [if_neg hp]
      rcases ok_or_error s.step with ⟨next, hn⟩ | ⟨fault, hf⟩
      · obtain ⟨hnext, hl, -, hprogress⟩ := h.step_ok hn
        rw [hn]
        rcases hprogress with hdone | hcursor
        · refine Or.inl ⟨next, ?_, hdone, hnext⟩
          cases count <;> simp [Session.stepUntilCompleted, hdone, Progress.result]
        · exact ih hnext (by rw [hl]; omega)
      · rw [hf]
        exact Or.inr ⟨fault, rfl, h.ending_of_step_error hf⟩

theorem step_restart (h : s.step = .ok t) : t.restart = s.restart := by
  unfold step at h
  split at h
  · cases h
    rfl
  · split at h
    · cases h
      unfold replay
      split <;> rfl
    · obtain ⟨found, -, h⟩ := bind_eq_ok.mp h
      cases found <;> cases h <;> rfl

theorem stepUntilCompleted_restart (count : Nat) (s : Session) :
    (stepUntilCompleted count s).session.restart = s.restart := by
  induction count generalizing s with
  | zero => rfl
  | succ count ih =>
    rw [stepUntilCompleted]
    split
    · rfl
    · split
      · next next hn => rw [ih, step_restart hn]
      · rfl

theorem orFault_eq_ok {α : Type} {x : Except Fault α} {a : α} : orFault x = .ok a ↔ x = .ok a := by
  cases x with
  | error fault => exact iff_of_false (fun h => by cases h) (fun h => by cases h)
  | ok b =>
    constructor
    · intro h
      cases h
      rfl
    · intro h
      cases h
      rfl

theorem reduce_restart {action : Action} (ha : action.keepsSource = true)
    (h : s.reduce action = .ok t) : t.restart = s.restart := by
  cases action with
  | step => exact step_restart (orFault_eq_ok.mp h)
  | runAll =>
    have hr := orFault_eq_ok.mp h
    unfold Progress.result at hr
    split at hr
    · cases hr
      exact stepUntilCompleted_restart s.stepBound s.restart
    · cases hr
  | reset =>
    cases h
    rfl
  | edit | load | unknown => cases ha

theorem perform_restart {actions : List Action} (ha : ∀ a ∈ actions, a.keepsSource = true)
    (h : s.perform actions = .ok t) : t.restart = s.restart := by
  induction actions generalizing s with
  | nil =>
    cases h
    rfl
  | cons action rest ih =>
    obtain ⟨next, hn, h⟩ := bind_eq_ok.mp h
    have hnext := reduce_restart (ha action List.mem_cons_self) hn
    rw [ih (fun a hm => ha a (List.mem_cons_of_mem action hm)) h, hnext]

/-- Running to the end depends on nothing but what the session restarts from. -/
theorem reduce_runAll_congr (h : t.restart = s.restart) : t.reduce .runAll = s.reduce .runAll := by
  have hbound : ∀ u : Session, u.stepBound = u.restart.stepBound := fun _ => rfl
  simp only [reduce, runToEnd, hbound t, hbound s, h]

end Session

end SnippetTutor
