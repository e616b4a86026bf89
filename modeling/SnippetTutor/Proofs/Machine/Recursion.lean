import SnippetTutor.Proofs.Machine.Change

/-! # Execution as a recursion on depth

Since statements leave the depth as it was, the levels of nesting that are left can be
read off the caller. A call thus obeys an equation in which these levels do not occur,
and a property of execution is proved for a machine from the machines one level deeper.
-/
namespace SnippetTutor.Machine
open Outcome

variable {config : Config} {line : Text} {m n : Machine} {c : Invocation}

theorem execute_of_invocation (h : invocation? config.marker line m = some c) :
    execute config line m = call config c.function c.arguments c.caller :=
  executeWith_of_invocation h

theorem executeWith_callAt (config : Config) (line : Text) (m : Machine) :
    executeWith (callAt config (room config m.depth)) config.marker line m =
      execute config line m := by
  cases hc : invocation? config.marker line m with
  | none => exact executeWith_of_no_invocation hc
  | some c =>
    rw [executeWith_of_invocation hc, execute_of_invocation hc, call, invocation?_depth hc]

theorem runBody_callAt (config : Config) (body : List Text) (m : Machine) :
    runBody (executeWith (callAt config (room config m.depth)) config.marker) body m =
      runBody (execute config) body m := by
  induction body generalizing m with
  | nil => rfl
  | cons line rest ih =>
    simp only [runBody, executeWith_callAt]
    cases hn : execute config line m with
    | error fault => rfl
    | ok next =>
      have hd := execute_depth hn
      have hr := ih next
      rw [hd] at hr
      simp only [Bind.bind, Except.bind, hr]

theorem room_eq_zero {depth : Int} : room config depth = 0 ↔ config.maxDepth ≤ depth := by
  unfold room
  omega

theorem room_succ {depth : Int} (h : depth < config.maxDepth) :
    room config depth = room config (depth + 1) + 1 := by
  unfold room
  omega

/-- The machine in which the body of a call ends, with a definition that is still open
at the end completed. -/
def bodyEnd (config : Config) (f : Function) (arguments : Text) (m : Machine) :
    Except Fault Machine := do
  let values ← (Arguments.split arguments).mapM (Literal.coerce m.memory)
  let inner ← runBody (execute config) f.body (m.enter f values)
  .ok inner.closeDefinition

/-- The equation of a call: the two limits are tested, the budget first, and then the
body is run one level deeper. -/
theorem call_eq (config : Config) (f : Function) (arguments : Text) (m : Machine) :
    call config f arguments m =
      if m.exhausted then .ok m
      else if config.maxCalls ≤ m.calls - m.floor then .ok m.abandon
      else if config.maxDepth ≤ m.depth then .ok m.abandon
      else (bodyEnd config f arguments m).map (m.leave config.scope f) := by
  by_cases hd : config.maxDepth ≤ m.depth
  · simp only [call, room_eq_zero.mpr hd, callAt, hd, if_true]
  · simp only [call, room_succ (Int.not_le.mp hd), callAt, hd, if_false]
    have hbody := fun values => runBody_callAt config f.body (m.enter f values)
    simp only [enter_depth] at hbody
    simp only [hbody, bodyEnd, map_bind, map_ok]

/-- Whether a call goes through: no limit has been hit, and neither is hit by it. -/
def Admits (config : Config) (m : Machine) : Prop :=
  m.exhausted = false ∧ m.calls - m.floor < config.maxCalls ∧ m.depth < config.maxDepth

variable {f : Function} {arguments : Text}

theorem call_of_exhausted (h : m.exhausted = true) : call config f arguments m = .ok m := by
  rw [call_eq, if_pos h]

theorem call_of_refused (he : m.exhausted = false) (h : ¬ m.Admits config) :
    call config f arguments m = .ok m.abandon := by
  rw [call_eq, if_neg (by simp [he])]
  by_cases hb : config.maxCalls ≤ m.calls - m.floor
  · rw [if_pos hb]
  · have hd : config.maxDepth ≤ m.depth := by
      simp only [Admits, he, true_and] at h
      omega
    rw [if_neg hb, if_pos hd]

theorem call_of_admits (h : m.Admits config) :
    call config f arguments m = (bodyEnd config f arguments m).map (m.leave config.scope f) := by
  obtain ⟨he, hb, hd⟩ := h
  rw [call_eq, if_neg (by simp [he]), if_neg (Int.not_le.mpr hb), if_neg (Int.not_le.mpr hd)]

/-- A property of a machine may be proved from the machines one level deeper, as long as
the depth limit is not reached. -/
theorem depth_induction (config : Config) {motive : Machine → Prop}
    (step : ∀ m, (m.depth < config.maxDepth → ∀ m', m'.depth = m.depth + 1 → motive m') → motive m)
    (m : Machine) : motive m := by
  induction hk : room config m.depth generalizing m with
  | zero =>
    have hd := room_eq_zero.mp hk
    exact step m (fun hlt => absurd hd (Int.not_le.mpr hlt))
  | succ k ih =>
    apply step m
    intro hlt m' hm'
    apply ih m'
    have hr := room_succ hlt
    rw [hm']
    omega

end SnippetTutor.Machine
