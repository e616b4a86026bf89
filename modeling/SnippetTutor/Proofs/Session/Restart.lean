import Mathlib.Data.List.Induction
import SnippetTutor.Proofs.Session.Completion

/-! # What a session depends on

Whatever has been done with a session, it is where a fresh session comes with steps alone or
with one run to its end. The fresh session is that of the source or lesson that was taken last,
and how often it has been stepped or whether it has been run to its end is read off the actions
since then. An action that is refused is as good as none.
-/
namespace SnippetTutor

namespace Action

/-- Whether an action puts a session at its beginning. -/
def restarts : Action → Bool
  | .reset | .edit _ | .load _ => true
  | .step | .runAll | .unknown _ => false

def isStep : Action → Bool
  | .step => true
  | .runAll | .reset | .edit _ | .load _ | .unknown _ => false

def isRun : Action → Bool
  | .runAll => true
  | .step | .reset | .edit _ | .load _ | .unknown _ => false

/-- The session that an action builds of another source or lesson. A lesson that cannot be
taken builds none. -/
def fresh? (config : Config) : Action → Option Session
  | .edit source => some (Session.ofSource config source)
  | .load lesson => (Session.ofLesson config lesson).toOption
  | .step | .runAll | .reset | .unknown _ => none

end Action

namespace Session
open Outcome

/-- The session of a source or a lesson before its first step. -/
def Fresh (config : Config) (s : Session) : Prop :=
  (∃ source, s = ofSource config source) ∨ ∃ lesson, ofLesson config lesson = .ok s

/-- The session after an action, which is the same one if the action is refused. -/
def attempt (s : Session) (action : Action) : Session :=
  match s.reduce action with
  | .ok next => next
  | .error _ => s

def attemptAll (s : Session) (actions : List Action) : Session := actions.foldl attempt s

/-- The actions that are not refused when all are attempted one after another. -/
def accepted (s : Session) : List Action → List Action
  | [] => []
  | action :: rest => match s.reduce action with
    | .ok next => action :: accepted next rest
    | .error _ => accepted s rest

/-- The session that was built last: at first the given one, then those that actions build. -/
def base (s : Session) (taken : List Action) : Session :=
  taken.foldl (fun built action => (action.fresh? s.config).getD built) s

/-- The number of steps since a session was last put at its beginning. -/
def stepsTaken (taken : List Action) : Nat :=
  (taken.reverse.takeWhile fun action => !action.restarts).countP Action.isStep

/-- Whether the last action but for steps is a run to the end. -/
def ranLast (taken : List Action) : Bool :=
  (taken.reverse.find? fun action => !action.isStep).any Action.isRun

variable {config : Config} {s t u : Session} {action : Action} {actions taken : List Action}

theorem fresh_ofSource (config : Config) (source : Text) : (ofSource config source).Fresh config :=
  Or.inl ⟨source, rfl⟩

theorem Fresh.config_eq (h : s.Fresh config) : s.config = config := by
  rcases h with ⟨source, rfl⟩ | ⟨lesson, hl⟩
  · rfl
  · obtain ⟨records, -, hl⟩ := bind_eq_ok.mp hl
    cases hl
    rfl

theorem Fresh.restart_eq (h : s.Fresh config) : s.restart = s := by
  rcases h with ⟨source, rfl⟩ | ⟨lesson, hl⟩
  · rfl
  · obtain ⟨records, -, hl⟩ := bind_eq_ok.mp hl
    cases hl
    rfl

theorem fresh_of_fresh? (h : action.fresh? config = some s) : s.Fresh config := by
  cases action with
  | step | runAll | reset | unknown => cases h
  | edit source =>
    cases h
    exact fresh_ofSource config source
  | load lesson => exact Or.inr ⟨lesson, eq_ok_of_toOption h⟩

theorem base_concat (s : Session) (taken : List Action) (action : Action) :
    s.base (taken ++ [action]) = (action.fresh? s.config).getD (s.base taken) := by
  rw [base, List.foldl_append]
  rfl

theorem base_fresh (h : s.Fresh config) (taken : List Action) : (s.base taken).Fresh config := by
  induction taken using List.reverseRecOn with
  | nil => exact h
  | append_singleton taken action ih =>
    rw [base_concat, h.config_eq]
    cases hb : action.fresh? config with
    | none => exact ih
    | some built => exact fresh_of_fresh? hb

theorem attempt_of_ok (h : s.reduce action = .ok t) : s.attempt action = t := by
  rw [attempt, h]

theorem attempt_of_error {refusal : Refusal} (h : s.reduce action = .error refusal) : s.attempt action = s := by
  rw [attempt, h]

theorem attemptAll_concat (s : Session) (actions : List Action) (action : Action) :
    s.attemptAll (actions ++ [action]) = (s.attemptAll actions).attempt action := by
  rw [attemptAll, List.foldl_append]
  rfl

theorem accepted_append (s : Session) (first second : List Action) :
    s.accepted (first ++ second) = s.accepted first ++ (s.attemptAll first).accepted second := by
  induction first generalizing s with
  | nil => rfl
  | cons action rest ih =>
    cases h : s.reduce action with
    | ok next =>
      have hnext : s.attemptAll (action :: rest) = next.attemptAll rest := by
        rw [attemptAll, List.foldl_cons, attempt_of_ok h]
        rfl
      simp only [List.cons_append, accepted, h, hnext, ih]
    | error refusal =>
      have hsame : s.attemptAll (action :: rest) = s.attemptAll rest := by
        rw [attemptAll, List.foldl_cons, attempt_of_error h]
        rfl
      simp only [List.cons_append, accepted, h, hsame, ih]

theorem perform_concat (s : Session) (actions : List Action) (action : Action) :
    s.perform (actions ++ [action]) = s.perform actions >>= fun t => t.reduce action := by
  rw [perform, List.foldlM_append]
  simp [perform]

section Taken
variable (taken : List Action)

theorem stepsTaken_step : stepsTaken (taken ++ [.step]) = stepsTaken taken + 1 := by
  have hreverse : (taken ++ [Action.step]).reverse = .step :: taken.reverse := by simp
  rw [stepsTaken, hreverse, List.takeWhile_cons_of_pos rfl, List.countP_cons_of_pos rfl]
  rfl

theorem stepsTaken_restarts (h : action.restarts = true) : stepsTaken (taken ++ [action]) = 0 := by
  simp [stepsTaken, h]

theorem ranLast_step : ranLast (taken ++ [.step]) = ranLast taken := by
  simp [ranLast, Action.isStep]

theorem ranLast_runAll : ranLast (taken ++ [.runAll]) = true := by
  simp [ranLast, Action.isStep, Action.isRun]

theorem ranLast_restarts (h : action.restarts = true) : ranLast (taken ++ [action]) = false := by
  cases action with
  | step | runAll | unknown => cases h
  | reset | edit | load => simp [ranLast, Action.isStep, Action.isRun]

end Taken

/-- Where a session stands after the actions that it has taken: where the session that was built
last comes by as many steps, or by one run to its end. -/
structure Stands (s : Session) (taken : List Action) (t : Session) : Prop where
  config : t.config = s.config
  restart : t.restart = s.base taken
  stepped : ranLast taken = false → (s.base taken).perform (List.replicate (stepsTaken taken) .step) = .ok t
  ran : ranLast taken = true → (s.base taken).reduce .runAll = .ok t

namespace Stands

theorem start (h : s.Fresh config) : Stands s [] s where
  config := rfl
  restart := h.restart_eq
  stepped _ := rfl
  ran := nofun

/-- Running to the end is running the session that was built last to its end. -/
theorem reduce_runAll (h : Stands s taken t) : t.reduce .runAll = (s.base taken).reduce .runAll := by
  have hbase : (s.base taken).restart = t.restart := by
    rw [← h.restart]
    rfl
  exact reduce_runAll_congr hbase.symm

theorem step (h : Stands s taken t) (hu : t.reduce .step = .ok u) : Stands s (taken ++ [.step]) u := by
  have hbase : s.base (taken ++ [.step]) = s.base taken := base_concat s taken .step
  have hrestart := reduce_restart rfl hu
  refine ⟨(congrArg Session.config hrestart).trans h.config, ?_, ?_, ?_⟩
  · rw [hbase, ← h.restart]
    exact hrestart
  · rw [ranLast_step, hbase, stepsTaken_step, List.replicate_succ', perform_concat]
    intro hran
    exact bind_eq_ok.mpr ⟨t, h.stepped hran, hu⟩
  · rw [ranLast_step, hbase]
    intro hran
    -- the run has completed the session, so that the step changes nothing
    have hdone := Follows.step_of_completed (reduce_runAll_completed (h.ran hran))
    have hsame : u = t := Except.ok.inj ((orFault_eq_ok.mp hu).symm.trans hdone)
    rw [hsame]
    exact h.ran hran

theorem runAll (h : Stands s taken t) (hu : t.reduce .runAll = .ok u) : Stands s (taken ++ [.runAll]) u := by
  have hbase : s.base (taken ++ [.runAll]) = s.base taken := base_concat s taken .runAll
  have hrestart := reduce_restart rfl hu
  refine ⟨(congrArg Session.config hrestart).trans h.config, ?_, ?_, ?_⟩
  · rw [hbase, ← h.restart]
    exact hrestart
  · rw [ranLast_runAll]
    exact nofun
  · intro _
    rw [hbase, ← h.reduce_runAll]
    exact hu

/-- An action that puts the session at its beginning leaves the one that was built last. -/
theorem anew (ha : action.restarts = true) (hc : u.config = s.config) (hr : u.restart = u)
    (hu : s.base (taken ++ [action]) = u) : Stands s (taken ++ [action]) u := by
  refine ⟨hc, hr.trans hu.symm, ?_, ?_⟩
  · intro _
    rw [stepsTaken_restarts taken ha, hu]
    rfl
  · rw [ranLast_restarts taken ha]
    exact nofun

theorem next (hs : s.Fresh config) (h : Stands s taken t) (hu : t.reduce action = .ok u) :
    Stands s (taken ++ [action]) u := by
  have hconfig : t.config = config := h.config.trans hs.config_eq
  cases action with
  | step => exact h.step hu
  | runAll => exact h.runAll hu
  | reset =>
    cases hu
    exact anew rfl h.config rfl ((base_concat s taken .reset).trans h.restart.symm)
  | edit source =>
    cases hu
    refine anew rfl h.config rfl ?_
    rw [base_concat, Action.fresh?, h.config]
    rfl
  | load lesson =>
    have hlesson := orFault_eq_ok.mp hu
    rw [hconfig] at hlesson
    have hfresh : u.Fresh config := Or.inr ⟨lesson, hlesson⟩
    refine anew rfl (hfresh.config_eq.trans hs.config_eq.symm) hfresh.restart_eq ?_
    rw [base_concat, Action.fresh?, hs.config_eq, hlesson]
    rfl
  | unknown name => cases hu

end Stands

theorem attemptAll_stands (h : s.Fresh config) (actions : List Action) :
    Stands s (s.accepted actions) (s.attemptAll actions) := by
  induction actions using List.reverseRecOn with
  | nil => exact .start h
  | append_singleton actions action ih =>
    rw [attemptAll_concat, accepted_append]
    cases hu : (s.attemptAll actions).reduce action with
    | ok next =>
      rw [attempt_of_ok hu]
      simp only [accepted, hu]
      exact ih.next h hu
    | error refusal =>
      rw [attempt_of_error hu]
      simp only [accepted, hu, List.append_nil]
      exact ih

/-- A session depends only on the source or lesson that it has now and on what has been done
since it was last put at its beginning. It stands where a fresh session of that source or
lesson, with the settings that never change, comes by one run to its end, if that was the last
thing done but for steps, and otherwise by the steps alone. A reset gives exactly that fresh
session, a run to the end is that of the fresh session and may be repeated, and a source or
lesson that is taken anew finds nothing of the old one. -/
theorem session_normal_form {config : Config} {s : Session} (h : s.Fresh config) (actions : List Action) :
    (s.base (s.accepted actions)).Fresh config ∧ (s.attemptAll actions).config = config ∧
    (ranLast (s.accepted actions) = true →
      (s.base (s.accepted actions)).reduce .runAll = .ok (s.attemptAll actions)) ∧
    (ranLast (s.accepted actions) = false →
      (s.base (s.accepted actions)).perform (List.replicate (stepsTaken (s.accepted actions)) .step) =
        .ok (s.attemptAll actions)) ∧
    (s.attemptAll actions).reduce .reset = .ok (s.base (s.accepted actions)) ∧
    (s.attemptAll actions).reduce .runAll = (s.base (s.accepted actions)).reduce .runAll ∧
    (∀ t, (s.attemptAll actions).reduce .runAll = .ok t → t.reduce .runAll = .ok t) ∧
    (∀ source, ∃ t, (s.attemptAll actions).reduce (.edit source) = .ok t ∧ t = ofSource config source ∧
      t.authored = none) ∧
    ∀ lesson, (s.attemptAll actions).reduce (.load lesson) = orFault (ofLesson config lesson) := by
  have hstands := attemptAll_stands h actions
  have hconfig := hstands.config.trans h.config_eq
  refine ⟨base_fresh h _, hconfig, hstands.ran, hstands.stepped, ?_, hstands.reduce_runAll, ?_, ?_, ?_⟩
  · rw [← hstands.restart]
    rfl
  · intro t ht
    rw [reduce_runAll_congr (reduce_restart rfl ht)]
    exact ht
  · intro source
    refine ⟨_, rfl, ?_, rfl⟩
    rw [hconfig]
  · intro lesson
    rw [← hconfig]
    rfl

/-- A source of which the second line cannot be executed. -/
def halting : Text := "y = 2\nz = [1".toList ++ List.replicate 309 '0' ++ [']']

/-- Actions of which the last two are refused. -/
def tried : List Action := [.step, .runAll, .edit halting, .step, .runAll, .unknown "jump".toList]

/-- The source that is taken in the middle has been stepped once, and all else is forgotten. -/
theorem session_normal_form_halting : ∃ t, t = (ofSource {} "x = 1\nprint(x)".toList).attemptAll tried ∧
    (ofSource {} halting).perform [.step] = .ok t ∧ t.position = 1 ∧ t.console = [] ∧
    t.reduce .reset = .ok (ofSource {} halting) := by
  have hfresh := fresh_ofSource {} "x = 1\nprint(x)".toList
  obtain ⟨hran, hsteps, hbase⟩ : ranLast ((ofSource {} "x = 1\nprint(x)".toList).accepted tried) = false ∧
      stepsTaken ((ofSource {} "x = 1\nprint(x)".toList).accepted tried) = 1 ∧
      (ofSource {} "x = 1\nprint(x)".toList).base
        ((ofSource {} "x = 1\nprint(x)".toList).accepted tried) = ofSource {} halting := by decide +kernel
  obtain ⟨-, -, -, hstepped, hreset, -⟩ := session_normal_form hfresh tried
  rw [hbase] at hstepped hreset
  rw [hsteps] at hstepped
  have ht := hstepped hran
  have hshown : ((ofSource {} halting).perform [.step]).toOption.map (fun t => (t.position, t.console)) =
      some (1, []) := by decide +kernel
  rw [show [Action.step] = List.replicate 1 .step from rfl, ht] at hshown
  obtain ⟨hposition, hconsole⟩ := Prod.mk.inj (Option.some.inj hshown)
  exact ⟨_, rfl, ht, hposition, hconsole, hreset⟩

end Session

end SnippetTutor
