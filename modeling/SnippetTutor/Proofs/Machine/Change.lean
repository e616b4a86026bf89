import SnippetTutor.Proofs.Machine.Invocation
import SnippetTutor.Proofs.Outcome

/-! # What every statement respects

A statement is made up of a few elementary changes, at any depth of calls. A relation
that holds of these, and passes from the body of a call to the call, therefore holds
between the machines before and after any statement.
-/
namespace SnippetTutor.Machine
open Outcome

variable {config : Config} {caller : Caller} {marker line : Text} {m n : Machine}

/-- What a relation between machines must hold of so that it holds of every statement:
the elementary changes, and a call whose body it holds of. -/
structure Respected (policy : ScopePolicy) (P : Machine → Machine → Prop) : Prop where
  refl : ∀ m, P m m
  trans : ∀ {a b c}, P a b → P b c → P a c
  header : ∀ m name params, P m { m with pending := some ⟨name, params, []⟩ }
  emit : ∀ m t, P m (m.emit t)
  bind : ∀ m name value, P m (m.bind name value)
  collect : ∀ m line, P m (m.collect line)
  close : ∀ m, P m m.closeDefinition
  abandon : ∀ m, P m m.abandon
  leave : ∀ {m f values inner}, P (m.enter f values) inner → P m (m.leave policy f inner)

section Frame
variable {name expr object arguments : Text}

/-- An assignment changes nothing but the memory. -/
theorem assign_frame (h : m.assign name expr = .ok n) : n = { m with memory := n.memory } := by
  unfold assign at h
  split at h
  · obtain ⟨changed, -, h⟩ := bind_eq_ok.mp h
    cases h
    rfl
  · obtain ⟨value, -, h⟩ := bind_eq_ok.mp h
    cases h
    rfl

theorem callMethod_frame (h : m.callMethod object name arguments = .ok n) :
    n = { m with memory := n.memory } := by
  unfold callMethod at h
  split at h
  · obtain ⟨changed, -, h⟩ := bind_eq_ok.mp h
    cases h
    rfl
  · cases h
    rfl

end Frame

section Body
variable {execute : Text → Machine → Except Fault Machine} {body : List Text}

theorem runBody_cons_of_exhausted (h : execute line m = .ok n) (hn : n.exhausted = true) :
    runBody execute (line :: body) m = .ok n := by
  simp only [runBody, h, Bind.bind, Except.bind, hn, if_true]

theorem runBody_cons_of_live (h : execute line m = .ok n) (hn : n.exhausted = false) :
    runBody execute (line :: body) m = runBody execute body n := by
  simp only [runBody, h, Bind.bind, Except.bind, hn, Bool.false_eq_true, if_false]

/-- What each line of a body keeps, the body keeps. -/
theorem runBody_keeps {P : Machine → Prop}
    (hline : ∀ line ∈ body, ∀ k k', P k → execute line k = .ok k' → P k')
    (hm : P m) (h : runBody execute body m = .ok n) : P n := by
  induction body generalizing m with
  | nil =>
    cases h
    exact hm
  | cons line rest ih =>
    obtain ⟨next, hnext, h⟩ := bind_eq_ok.mp h
    have hkept := hline line List.mem_cons_self m next hm hnext
    split at h
    · cases h
      exact hkept
    · apply ih _ hkept h
      intro line hmem
      exact hline line (List.mem_cons_of_mem _ hmem)

end Body

namespace Respected
variable {P : Machine → Machine → Prop} (hP : Respected config.scope P)
include hP

theorem assign {name expr : Text} (h : m.assign name expr = .ok n) : P m n := by
  unfold Machine.assign at h
  split at h
  · obtain ⟨changed, -, h⟩ := bind_eq_ok.mp h
    cases h
    exact hP.trans (hP.bind m _ _) (hP.bind _ _ _)
  · obtain ⟨value, -, h⟩ := bind_eq_ok.mp h
    cases h
    exact hP.bind m _ _

theorem callMethod {object name arguments : Text} (h : m.callMethod object name arguments = .ok n) :
    P m n := by
  unfold Machine.callMethod at h
  split at h
  · obtain ⟨changed, -, h⟩ := bind_eq_ok.mp h
    cases h
    exact hP.bind m _ _
  · cases h
    exact hP.refl m

theorem perform (hcaller : ∀ f arguments m n, caller f arguments m = .ok n → P m n) {shape : Shape}
    (h : perform caller shape m = .ok n) : P m n := by
  cases shape with
  | header name params =>
    cases h
    exact hP.header m _ _
  | assignment name expr => exact hP.assign h
  | print argument =>
    cases h
    exact hP.emit m _
  | method object name arguments => exact hP.callMethod h
  | call name arguments =>
    simp only [Machine.perform] at h
    split at h
    · exact hcaller _ _ _ _ h
    · cases h
      exact hP.refl m
  | unrecognized =>
    cases h
    exact hP.refl m

theorem executeWith (hcaller : ∀ f arguments m n, caller f arguments m = .ok n → P m n)
    (h : executeWith caller marker line m = .ok n) : P m n := by
  cases hp : performed? marker line m with
  | none =>
    rcases executeWith_of_not_performed hp with hn | ⟨text, -, hn⟩
    · rw [hn caller] at h
      cases h
      exact hP.refl m
    · rw [hn caller] at h
      cases h
      exact hP.collect m text
  | some p =>
    obtain ⟨shape, start⟩ := p
    rw [executeWith_of_performed hp] at h
    have hrun := hP.perform hcaller h
    rcases performed?_machine hp with rfl | rfl
    · exact hrun
    · exact hP.trans (hP.close m) hrun

theorem runBody {execute : Text → Machine → Except Fault Machine} {body : List Text}
    (hex : ∀ line m n, execute line m = .ok n → P m n) (h : runBody execute body m = .ok n) : P m n := by
  apply runBody_keeps _ (hP.refl m) h
  intro line _ k k' hk hx
  exact hP.trans hk (hex line k k' hx)

theorem callAt (room : Nat) {f : Function} {arguments : Text}
    (h : callAt config room f arguments m = .ok n) : P m n := by
  induction room generalizing f arguments m n with
  | zero =>
    simp only [Machine.callAt] at h
    split at h
    · cases h
      exact hP.refl _
    · split at h <;> cases h <;> exact hP.abandon m
  | succ room ih =>
    simp only [Machine.callAt] at h
    split at h
    · cases h
      exact hP.refl _
    · split at h
      · cases h
        exact hP.abandon m
      · obtain ⟨values, -, h⟩ := bind_eq_ok.mp h
        obtain ⟨inner, hi, h⟩ := bind_eq_ok.mp h
        cases h
        have hbody := hP.runBody (fun line m n hn => hP.executeWith (fun _ _ _ _ => ih) hn) hi
        exact hP.leave (hP.trans hbody (hP.close inner))

/-- A relation that is respected by the elementary changes holds of every statement. -/
theorem execute (h : execute config line m = .ok n) : P m n :=
  hP.executeWith (fun _ _ _ _ hc => hP.callAt _ hc) h

end Respected

/-- Statements leave the depth as it was. -/
theorem respected_depth (policy : ScopePolicy) : Respected policy fun m n => n.depth = m.depth where
  refl _ := rfl
  trans hab hbc := hbc.trans hab
  header _ _ _ := rfl
  emit _ _ := rfl
  bind _ _ _ := rfl
  collect _ _ := rfl
  close := closeDefinition_depth
  abandon _ := rfl
  leave _ := rfl

/-- A machine in which output and calls have only been added. -/
structure Extends (m n : Machine) : Prop where
  output : m.output <+: n.output
  calls : m.calls ≤ n.calls

theorem Extends.refl (m : Machine) : m.Extends m := ⟨List.prefix_rfl, Int.le_refl _⟩

theorem Extends.trans {a b c : Machine} (hab : a.Extends b) (hbc : b.Extends c) : a.Extends c :=
  ⟨hab.output.trans hbc.output, Int.le_trans hab.calls hbc.calls⟩

theorem closeDefinition_extends (m : Machine) : m.Extends m.closeDefinition :=
  ⟨by simp, by simp⟩

theorem leave_extends (policy : ScopePolicy) (f : Function) (m inner : Machine) :
    inner.Extends (m.leave policy f inner) :=
  ⟨List.prefix_rfl, Int.le_refl _⟩

theorem enter_extends (m : Machine) (f : Function) (values : List Value) : m.Extends (m.enter f values) :=
  ⟨List.prefix_rfl, Int.le_add_one (Int.le_refl _)⟩

theorem respected_extends (policy : ScopePolicy) : Respected policy Extends where
  refl := Extends.refl
  trans := Extends.trans
  header _ _ _ := ⟨List.prefix_rfl, Int.le_refl _⟩
  emit _ _ := ⟨List.prefix_append _ _, Int.le_refl _⟩
  bind _ _ _ := ⟨List.prefix_rfl, Int.le_refl _⟩
  collect _ _ := ⟨List.prefix_rfl, Int.le_refl _⟩
  close := closeDefinition_extends
  abandon _ := ⟨List.prefix_append _ _, Int.le_refl _⟩
  leave h := (enter_extends _ _ _).trans (h.trans (leave_extends _ _ _ _))

theorem execute_depth (h : execute config line m = .ok n) : n.depth = m.depth :=
  (respected_depth config.scope).execute h

theorem execute_extends (h : execute config line m = .ok n) : m.Extends n :=
  (respected_extends config.scope).execute h

end SnippetTutor.Machine
