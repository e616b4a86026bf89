import SnippetTutor.Proofs.Machine.Reached
import SnippetTutor.Proofs.Machine.Sequence
import SnippetTutor.Proofs.Statement.Indentation
import SnippetTutor.Proofs.Value.Hereditary

/-! # Properties of all values of a machine

What all values of a memory have in common, and the function whose definition is open with
them, is kept by every statement at any depth of calls. A statement makes one kind of value
of its own, and that is the function: with no body at first, and then with one more line.
-/
namespace SnippetTutor.Machine
open Outcome

/-- Every value of the memory has the property, and so has the function that is being defined. -/
structure Each (P : Value → Prop) (m : Machine) : Prop where
  memory : m.memory.Each P
  pending : ∀ f, m.pending = some f → P (.function f)

/-- A line that is stored in a body keeps the property of the function. -/
def Stores (Q : Function → Prop) (marker line : Text) : Prop :=
  ∀ text, Statement.ofLine marker line = .bodyLine text → ∀ f, Q f → Q { f with body := f.body ++ [text] }

variable {config : Config} {caller : Caller} {marker line : Text} {lines : List Text} {shape : Shape}
  {P : Value → Prop} {m n inner : Machine} {c : Invocation}

theorem list?_of_listCall? {memory : Memory} {expr object argument : Text} {items : List Value}
    {action : ListAction} (h : listCall? memory expr = some (object, items, action, argument)) :
    memory.list? object = some items := by
  obtain ⟨⟨name, method, rest⟩, -, h⟩ := Option.bind_eq_some_iff.mp h
  obtain ⟨found, hfound, h⟩ := Option.bind_eq_some_iff.mp h
  cases haction : ListAction.ofName? method with
  | none =>
    rw [haction] at h
    cases h
  | some known =>
    rw [haction] at h
    cases known with
    | append | pop =>
      cases h
      exact hfound
    | sort | remove => cases h

namespace Each

theorem bind (h : m.Each P) {name : Text} {value : Value} (hvalue : P value) : (m.bind name value).Each P :=
  ⟨h.memory.bind hvalue, h.pending⟩

theorem collect (h : m.Each P) (hstores : Stores (fun f => P (.function f)) marker line) {text : Text}
    (htext : Statement.ofLine marker line = .bodyLine text) : (m.collect text).Each P := by
  refine ⟨h.memory, ?_⟩
  intro g hg
  obtain ⟨f, hf, rfl⟩ := Option.map_eq_some_iff.mp hg
  exact hstores text htext f (h.pending f hf)

theorem closeDefinition (h : m.Each P) : m.closeDefinition.Each P := by
  unfold Machine.closeDefinition
  split
  · exact h
  · next f hf => exact ⟨h.memory.bind (h.pending f hf), fun _ hnone => by cases hnone⟩

theorem leave (h : m.Each P) (hinner : inner.Each P) (policy : ScopePolicy) (f : Function) :
    (m.leave policy f inner).Each P :=
  ⟨h.memory.mergeScope hinner.memory, h.pending⟩

theorem invocation (h : m.Each P) (hc : invocation? marker line m = some c) :
    P (.function c.function) ∧ c.caller.Each P := by
  obtain ⟨shape, start, hp, hcall⟩ := invocation?_eq_some.mp hc
  obtain ⟨name, -, hf, rfl⟩ := shapeCall?_eq_some.mp hcall
  have hstart : c.caller.Each P := by
    rcases performed?_machine hp with hm | hm
    · rw [hm]
      exact h
    · rw [hm]
      exact h.closeDefinition
  exact ⟨hstart.memory.function? hf, hstart⟩

theorem runBody (h : m.Each P)
    (hlines : ∀ line ∈ lines, ∀ k k', k.depth = m.depth → k.Each P →
      Machine.execute config line k = .ok k' → k'.Each P)
    (hx : Machine.runBody (Machine.execute config) lines m = .ok n) : n.Each P := by
  have hkeeps : n.depth = m.depth ∧ n.Each P := by
    apply runBody_keeps _ ⟨rfl, h⟩ hx
    intro line hline k k' hk hkx
    exact ⟨(execute_depth hkx).trans hk.1, hlines line hline k k' hk.1 hk.2 hkx⟩
  exact hkeeps.2

section
variable (hP : Value.Hereditary P)
include hP

theorem lastItem {items : List Value} (h : ∀ item ∈ items, P item) : P (lastItem items) := by
  unfold Machine.lastItem
  cases hlast : items.getLast? with
  | none => exact hP.undefined
  | some item => exact h item (List.mem_of_getLast? hlast)

theorem enter (h : m.Each P) {f : Function} {values : List Value} (hvalues : ∀ value ∈ values, P value) :
    (m.enter f values).Each P :=
  ⟨h.memory.update (Memory.each_paramBindings hP hvalues), fun _ hnone => by cases hnone⟩

theorem assign (h : m.Each P) {name expr : Text} (hx : m.assign name expr = .ok n) : n.Each P := by
  unfold Machine.assign at hx
  split at hx
  · next object items action argument hcall =>
    obtain ⟨changed, hchanged, hx⟩ := bind_eq_ok.mp hx
    cases hx
    have hitems := h.memory.list? hP (list?_of_listCall? hcall)
    have hlist := ListAction.apply_each hP h.memory hitems hchanged
    refine (h.bind (hP.list.mpr hlist)).bind ?_
    split
    · exact lastItem hP hitems
    · exact hP.undefined
  · obtain ⟨value, hvalue, hx⟩ := bind_eq_ok.mp hx
    cases hx
    exact h.bind (hP.coerce h.memory hvalue)

theorem callMethod (h : m.Each P) {object name arguments : Text}
    (hx : m.callMethod object name arguments = .ok n) : n.Each P := by
  unfold Machine.callMethod at hx
  split at hx
  · next action items _ hitems =>
    obtain ⟨changed, hchanged, hx⟩ := bind_eq_ok.mp hx
    cases hx
    have hlist := ListAction.apply_each hP h.memory (h.memory.list? hP hitems) hchanged
    exact h.bind (hP.list.mpr hlist)
  · cases hx
    exact h

theorem perform (h : m.Each P) (hempty : ∀ name params, P (.function ⟨name, params, []⟩))
    (hcall : ∀ c, shapeCall? shape m = some c → caller c.function c.arguments c.caller = .ok n → n.Each P)
    (hx : perform caller shape m = .ok n) : n.Each P := by
  cases shape with
  | header name params =>
    cases hx
    refine ⟨h.memory, ?_⟩
    intro f hf
    cases hf
    exact hempty _ _
  | assignment name expr => exact h.assign hP hx
  | print argument =>
    cases hx
    exact ⟨h.memory, h.pending⟩
  | method object name arguments => exact h.callMethod hP hx
  | call name arguments =>
    simp only [Machine.perform] at hx
    cases hf : m.memory.function? name with
    | none =>
      rw [hf] at hx
      cases hx
      exact h
    | some f =>
      rw [hf] at hx
      exact hcall ⟨f, arguments, m⟩ (by simp [shapeCall?, hf]) hx
  | unrecognized =>
    cases hx
    exact h

/-- What a line does on its own keeps the property, as long as storing the line does. -/
theorem executeWith (h : m.Each P) (hempty : ∀ name params, P (.function ⟨name, params, []⟩))
    (hstores : Stores (fun f => P (.function f)) marker line)
    (hcall : ∀ c, invocation? marker line m = some c →
      caller c.function c.arguments c.caller = .ok n → n.Each P)
    (hx : executeWith caller marker line m = .ok n) : n.Each P := by
  cases hp : performed? marker line m with
  | none =>
    rcases executeWith_of_not_performed hp with hn | ⟨text, htext, hn⟩
    · rw [hn] at hx
      cases hx
      exact h
    · rw [hn] at hx
      cases hx
      exact h.collect hstores htext
  | some p =>
    obtain ⟨shape, start⟩ := p
    rw [executeWith_of_performed hp] at hx
    have hstart : start.Each P := by
      rcases performed?_machine hp with rfl | rfl
      · exact h
      · exact h.closeDefinition
    apply hstart.perform hP hempty _ hx
    intro c hc
    exact hcall c (invocation?_eq_some.mpr ⟨shape, start, hp, hc⟩)

theorem entered (h : m.Each P) (hc : invocation? marker line m = some c) {values : List Value}
    (hvalues : (Arguments.split c.arguments).mapM (Literal.coerce c.caller.memory) = .ok values) :
    (c.caller.enter c.function values).Each P := by
  have hcaller := (h.invocation hc).2
  apply hcaller.enter hP
  intro value hvalue
  obtain ⟨token, -, htoken⟩ := exists_of_mem_mapM hvalues hvalue
  exact hP.coerce hcaller.memory htoken

/-- A statement keeps the property if storing its line does, and storing the lines of bodies. -/
theorem execute (h : m.Each P) (hempty : ∀ name params, P (.function ⟨name, params, []⟩))
    (hbodies : ∀ f, P (.function f) → ∀ line ∈ f.body, Stores (fun f => P (.function f)) config.marker line)
    (hstores : Stores (fun f => P (.function f)) config.marker line)
    (hx : execute config line m = .ok n) : n.Each P := by
  induction m using depth_induction config generalizing line n with
  | step m ih =>
    -- The lines of the body are run one level deeper.
    apply h.executeWith hP hempty hstores _ hx
    intro c hc hx
    obtain ⟨hfunction, hcaller⟩ := h.invocation hc
    by_cases ha : c.caller.Admits config
    · rw [call_of_admits ha] at hx
      obtain ⟨inner, hend, rfl⟩ := map_eq_ok.mp hx
      obtain ⟨values, hvalues, hrun⟩ := bind_eq_ok.mp hend
      obtain ⟨last, hlast, hinner⟩ := bind_eq_ok.mp hrun
      cases hinner
      have hdepth := invocation?_depth hc
      have hlast := (h.entered hP hc hvalues).runBody (fun line hline k k' hk hkeeps hkx =>
        ih (hdepth ▸ ha.2.2) k (by rw [hk, enter_depth, hdepth]) hkeeps
          (hbodies _ hfunction line hline) hkx) hlast
      exact hcaller.leave hlast.closeDefinition config.scope c.function
    · cases he : c.caller.exhausted with
      | true =>
        rw [call_of_exhausted he] at hx
        cases hx
        exact hcaller
      | false =>
        rw [call_of_refused he ha] at hx
        cases hx
        exact ⟨hcaller.memory, hcaller.pending⟩

end

end Each

/-- A property that all functions have is one of every value that ever comes up. -/
theorem Reachable.each (hP : Value.Hereditary P) (hfunction : ∀ f, P (.function f)) (h : Reachable config m) :
    m.Each P := by
  obtain ⟨lines, hlines⟩ := h
  have hinitial : initial.Each P := ⟨nofun, fun _ hnone => by cases hnone⟩
  apply executeAll_keeps _ hinitial hlines
  intro line _ k k' hk hx
  exact hk.execute hP (fun _ _ => hfunction _) (fun _ _ _ _ _ _ _ _ => hfunction _) (fun _ _ _ _ => hfunction _) hx

end SnippetTutor.Machine
