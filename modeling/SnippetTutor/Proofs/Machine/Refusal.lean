import SnippetTutor.Proofs.Machine.Reached

/-! # Calls that a limit refuses

A refused call prints one line and is the last thing that happens in its statement. The
line that makes it leaves an exhausted machine, at which every enclosing body ends, and so
the output and the account of calls stay as the refusal left them.
-/
namespace SnippetTutor.Machine
open Outcome

variable {config : Config} {line line' line₁ line₂ next : Text} {m m' n m₁ m₂ : Machine}
  {c : Invocation}

/-- The line makes a call that one of the limits refuses. -/
def Refused (config : Config) (line : Text) (m : Machine) : Prop :=
  ∃ c, invocation? config.marker line m = some c ∧ c.caller.exhausted = false ∧
    ¬ c.caller.Admits config

/-- A line has been executed, without hitting a limit, before the machine `n` was made. -/
def Before (config : Config) (line : Text) (m n : Machine) : Prop :=
  ∃ k, execute config line m = .ok k ∧ k.exhausted = false ∧ k.Extends n

theorem foldlM_resume_extends {body : List Text} (h : body.foldlM (resume (execute config)) m = .ok n) :
    m.Extends n := by
  by_cases he : m.exhausted = true
  · rw [foldlM_resume_of_exhausted he] at h
    cases h
    exact Extends.refl m
  · rw [← runBody_eq_foldlM (by simpa using he)] at h
    exact (respected_extends config.scope).runBody (fun _ _ _ => execute_extends) h

/-- What a line inside a body does, and that the body ends with it if it exhausts the
machine. -/
theorem runBody_split {done rest : List Text} (h : m.exhausted = false)
    (h₁ : runBody (execute config) done m = .ok m₁) (hlive : m₁.exhausted = false)
    (h₂ : runBody (execute config) (done ++ line :: rest) m = .ok m₂) :
    ∃ k, execute config line m₁ = .ok k ∧ k.Extends m₂ ∧ (k.exhausted = true → m₂ = k) := by
  rw [runBody_eq_foldlM h] at h₁ h₂
  rw [List.foldlM_append, h₁] at h₂
  change (line :: rest).foldlM (resume (execute config)) m₁ = .ok m₂ at h₂
  rw [List.foldlM_cons, resume, if_neg (by simp [hlive])] at h₂
  obtain ⟨k, hk, hrest⟩ := bind_eq_ok.mp h₂
  refine ⟨k, hk, foldlM_resume_extends hrest, ?_⟩
  intro he
  rw [foldlM_resume_of_exhausted he] at hrest
  cases hrest
  rfl

theorem before_of_runBody {done rest : List Text} (h : m.exhausted = false)
    (h₁ : runBody (execute config) done m = .ok m₁) (hlive₁ : m₁.exhausted = false)
    (h₂ : runBody (execute config) (done ++ line :: rest) m = .ok m₂) (hlive₂ : m₂.exhausted = false) :
    Before config line m₁ m₂ := by
  obtain ⟨k, hk, hext, hlast⟩ := runBody_split h h₁ hlive₁ h₂
  refine ⟨k, hk, ?_, hext⟩
  cases he : k.exhausted with
  | false => rfl
  | true =>
    rw [hlast he, he] at hlive₂
    cases hlive₂

/-- What a line of the called body does is part of what the call does, and all of it if
the line exhausts the machine. -/
theorem Runs.call_outcome (hr : Runs config c next m')
    (hx : call config c.function c.arguments c.caller = .ok n) :
    ∃ k, execute config next m' = .ok k ∧ k.Extends n ∧
      (k.exhausted = true →
        n.output = k.output ∧ n.calls = k.calls ∧ n.exhausted = decide (0 < c.caller.depth)) := by
  obtain ⟨values, done, rest, hvalues, hbody, hrun⟩ := hr.started
  rw [call_of_admits hr.admits] at hx
  obtain ⟨inner, hend, rfl⟩ := map_eq_ok.mp hx
  obtain ⟨same, hsame, hend⟩ := bind_eq_ok.mp hend
  rw [hvalues] at hsame
  cases hsame
  obtain ⟨last, hlast, hinner⟩ := bind_eq_ok.mp hend
  cases hinner
  rw [hbody] at hlast
  obtain ⟨k, hk, hext, hlast⟩ := runBody_split rfl hrun hr.live hlast
  have hleave := leave_extends config.scope c.function c.caller last.closeDefinition
  refine ⟨k, hk, hext.trans ((closeDefinition_extends last).trans hleave), ?_⟩
  intro he
  rw [hlast he]
  simp [he]

theorem Runs.outcome (hr : Runs config c next m') (hc : invocation? config.marker line m = some c)
    (hx : execute config line m = .ok n) : ∃ k, execute config next m' = .ok k ∧ k.Extends n ∧
      (k.exhausted = true →
        n.output = k.output ∧ n.calls = k.calls ∧ n.exhausted = decide (0 < m.depth)) := by
  rw [execute_of_invocation hc] at hx
  rw [← invocation?_depth hc]
  exact hr.call_outcome hx

theorem same_or_before {done more rest₁ rest₂ : List Text} (h : m.exhausted = false)
    (h₁ : runBody (execute config) done m = .ok m₁) (hlive₁ : m₁.exhausted = false)
    (h₂ : runBody (execute config) (done ++ more) m = .ok m₂) (hlive₂ : m₂.exhausted = false)
    (hrest : line₁ :: rest₁ = more ++ line₂ :: rest₂) :
    (line₁ = line₂ ∧ m₁ = m₂) ∨ Before config line₁ m₁ m₂ := by
  cases more with
  | nil =>
    rw [List.append_nil, h₁] at h₂
    cases h₂
    cases hrest
    exact Or.inl ⟨rfl, rfl⟩
  | cons line more =>
    cases hrest
    exact Or.inr (before_of_runBody h h₁ hlive₁ h₂ hlive₂)

/-- Of two lines that one call runs, one has been executed before the other is. -/
theorem Runs.cases (h₁ : Runs config c line₁ m₁) (h₂ : Runs config c line₂ m₂) :
    (line₁ = line₂ ∧ m₁ = m₂) ∨ Before config line₁ m₁ m₂ ∨ Before config line₂ m₂ m₁ := by
  obtain ⟨values, done₁, rest₁, hvalues, hbody₁, hrun₁⟩ := h₁.started
  obtain ⟨values₂, done₂, rest₂, hvalues₂, hbody₂, hrun₂⟩ := h₂.started
  rw [hvalues] at hvalues₂
  cases hvalues₂
  rw [hbody₁] at hbody₂
  rcases List.append_eq_append_iff.mp hbody₂ with ⟨more, rfl, hrest⟩ | ⟨more, rfl, hrest⟩
  · rcases same_or_before rfl hrun₁ h₁.live hrun₂ h₂.live hrest with hsame | hbefore
    · exact Or.inl hsame
    · exact Or.inr (Or.inl hbefore)
  · rcases same_or_before rfl hrun₂ h₂.live hrun₁ h₁.live hrest with ⟨hline, hm⟩ | hbefore
    · exact Or.inl ⟨hline.symm, hm.symm⟩
    · exact Or.inr (Or.inr hbefore)

theorem invocation?_extends (h : invocation? config.marker line m = some c) : m.Extends c.caller :=
  ⟨⟨[], by rw [List.append_nil, invocation?_output h]⟩, Int.le_of_eq (invocation?_calls h).symm⟩

theorem Reached.extends_start (h : Reached config line m line' m') : m.Extends m' := by
  induction h with
  | here => exact Extends.refl _
  | inside hc hr _ ih => exact (invocation?_extends hc).trans (hr.extends.trans ih)

theorem Reached.extends_end (h : Reached config line m line' m') (hx : execute config line m = .ok n) :
    m'.Extends n := by
  induction h generalizing n with
  | here => exact execute_extends hx
  | inside hc hr _ ih =>
    obtain ⟨k, hk, hext, -⟩ := hr.outcome hc hx
    exact (ih hk).trans hext

theorem Refused.execute (h : Refused config line m) (hx : execute config line m = .ok n) :
    n.output = m.output ++ [recursionMessage] ∧ n.calls = m.calls ∧
      n.exhausted = decide (0 < m.depth) := by
  obtain ⟨c, hc, he, ha⟩ := h
  rw [execute_of_invocation hc, call_of_refused he ha] at hx
  cases hx
  simp [invocation?_output hc, invocation?_calls hc, invocation?_depth hc]

theorem Refused.not_runs (h : Refused config line m) (hc : invocation? config.marker line m = some c) :
    ¬ Runs config c line' m' := by
  obtain ⟨d, hd, -, ha⟩ := h
  rw [hc] at hd
  cases hd
  exact fun hr => ha hr.admits

/-- A statement in which a call is refused ends with the refusal. -/
theorem Reached.ends_refused (h : Reached config line m line' m') (hrefused : Refused config line' m')
    (hdepth : 0 ≤ m.depth) (hx : execute config line m = .ok n) :
    n.output = m'.output ++ [recursionMessage] ∧ n.calls = m'.calls ∧
      n.exhausted = decide (0 < m.depth) := by
  induction h generalizing n with
  | here => exact hrefused.execute hx
  | inside hc hr _ ih =>
    obtain ⟨k, hk, -, hlast⟩ := hr.outcome hc hx
    have hd := (hr.deeper hc).2
    obtain ⟨houtput, hcalls, hexhausted⟩ := ih hrefused (by omega) hk
    obtain ⟨hn, hnc, hne⟩ := hlast (by rw [hexhausted]; exact decide_eq_true (by omega))
    exact ⟨by rw [hn, houtput], by rw [hnc, hcalls], hne⟩

theorem Reached.exhausts (h : Reached config line m line' m') (hrefused : Refused config line' m')
    (hdepth : 0 < m.depth) (hx : execute config line m = .ok n) : n.exhausted = true := by
  rw [(h.ends_refused hrefused (by omega) hx).2.2]
  exact decide_eq_true hdepth

/-- Nothing is run after a refused call, and no other call is refused. -/
theorem Reached.precedes_refused (h : Reached config line m line' m') (hrefused : Refused config line' m')
    (hdepth : 0 ≤ m.depth) (hx : execute config line m = .ok n) (h₂ : Reached config line m line₂ m₂) :
    m₂.Extends m' ∧ (Refused config line₂ m₂ → line₂ = line' ∧ m₂ = m') := by
  induction h generalizing n with
  | here =>
    cases h₂ with
    | here => exact ⟨Extends.refl _, fun _ => ⟨rfl, rfl⟩⟩
    | inside hc hr _ => exact absurd hr (hrefused.not_runs hc)
  | @inside line next line' m k m' c hc hr hin ih =>
    have hd := (hr.deeper hc).2
    cases h₂ with
    | here =>
      refine ⟨(Reached.inside hc hr hin).extends_start, ?_⟩
      exact fun hself => absurd hr (hself.not_runs hc)
    | @inside _ next₂ _ _ k₂ _ c₂ hc₂ hr₂ hin₂ =>
      rw [hc] at hc₂
      cases hc₂
      rcases hr.cases hr₂ with ⟨rfl, rfl⟩ | ⟨ended, hended, hlive, -⟩ | ⟨ended, hended, hlive, hext⟩
      · obtain ⟨k', hk', -, -⟩ := hr.outcome hc hx
        exact ih hrefused (by omega) hk' hin₂
      · have hunwound := hin.exhausts hrefused (by omega) hended
        rw [hlive] at hunwound
        cases hunwound
      · refine ⟨(hin₂.extends_end hended).trans (hext.trans hin.extends_start), ?_⟩
        intro hself
        have hd₂ := (hr₂.deeper hc).2
        have hunwound := hin₂.exhausts hself (by omega) hended
        rw [hlive] at hunwound
        cases hunwound

end SnippetTutor.Machine
