import SnippetTutor.Proofs.Machine.Refusal
import SnippetTutor.Proofs.Machine.Sequence
import SnippetTutor.Proofs.Machine.Simulation

/-! # The meaning of a call

A call that hits no limit does what the lines of its body would do in its place, once the
parameters are bound. Inlined, the lines run one level higher, with one call less on the
account, and every call in them has a budget of its own, so that no limit is met that the
call did not meet.
-/
namespace SnippetTutor.Machine
open Outcome

/-- No call that is made under the line is refused. -/
def Unrefused (config : Config) (line : Text) (m : Machine) : Prop :=
  ∀ line' m', Reached config line m line' m' → ¬ Refused config line' m'

/-- The call goes through, and so does every call under the lines of its body. -/
structure Invocation.Unrefused (config : Config) (c : Invocation) : Prop where
  admits : c.caller.Admits config
  body : ∀ next k, Runs config c next k → Machine.Unrefused config next k

/-- The machine in which the parameters are bound where the call stands. -/
def bound (m : Machine) (f : Function) (values : List Value) : Machine :=
  { m with memory := Fields.update m.memory (paramBindings f.params values) }

/-- A machine inside a call, and the machine that runs the same lines in place of it. -/
structure Inlined (a b : Machine) : Prop where
  core : a.core = b.core
  output : a.output = b.output
  live : a.exhausted = false
  inlinedLive : b.exhausted = false
  depth : a.depth = b.depth + 1
  nonneg : 0 ≤ b.depth
  calls : a.calls = b.calls + 1
  callFloor : a.callFloor ≤ b.floor

variable {config : Config} {line next : Text} {body : List Text} {f : Function} {arguments : Text}
  {values : List Value} {m n a b k : Machine} {c : Invocation}

/-- A call whose output tells of no limit has hit none. -/
theorem unrefused_of_output (hdepth : 0 ≤ c.caller.depth) (hlive : c.caller.exhausted = false)
    (h : call config c.function c.arguments c.caller = .ok n) (hn : recursionMessage ∉ n.output) :
    c.Unrefused config := by
  constructor
  · by_cases ha : c.caller.Admits config
    · exact ha
    · rw [call_of_refused hlive ha] at h
      cases h
      simp at hn
  · intro next k hr line' m' hreached hrefused
    obtain ⟨last, hlast, hext, -⟩ := hr.call_outcome h
    have hd := hr.depth
    obtain ⟨houtput, -, -⟩ := hreached.ends_refused hrefused (by omega) hlast
    apply hn
    apply hext.output.subset
    rw [houtput]
    exact List.mem_append_right _ List.mem_cons_self

theorem Inlined.floor (h : Inlined a b) : a.floor ≤ b.floor := by
  have hd := h.depth
  have hb := h.nonneg
  have ha : a.floor = a.callFloor := if_neg (by omega)
  rw [ha]
  exact h.callFloor

theorem Inlined.admits (h : Inlined a b) (ha : a.Admits config) : b.Admits config := by
  obtain ⟨-, hcalls, hdepth⟩ := ha
  have hfloor := h.floor
  have hc := h.calls
  have hd := h.depth
  exact ⟨h.inlinedLive, by omega, by omega⟩

theorem simulated_inlined (config : Config) : Simulated config Inlined where
  core h := h.core
  exhausted h := h.live.trans h.inlinedLive.symm
  absorb h k := by
    refine ⟨rfl, ?_, h.live, h.inlinedLive, h.depth, h.nonneg, h.calls, h.callFloor⟩
    rw [absorb_output, absorb_output, h.output]
  enter {a b} h _ _ f values := by
    obtain ⟨hmemory, -⟩ := core_eq_iff.mp h.core
    have hd := h.depth
    have hb := h.nonneg
    have hc := h.calls
    refine ⟨?_, h.output, rfl, rfl, ?_, ?_, ?_, ?_⟩
    · exact core_eq_iff.mpr ⟨by simp only [enter, hmemory], rfl⟩
    · simp only [enter_depth, hd]
    · simp only [enter_depth]
      omega
    · simp only [enter]
      omega
    · have hentered : (b.enter f values).floor = b.floor := if_neg (by simp only [enter_depth]; omega)
      rw [hentered]
      exact h.floor
  leave {a b i j} h hij _ hext f := by
    obtain ⟨houter, hpending⟩ := core_eq_iff.mp h.core
    obtain ⟨hinner, -⟩ := core_eq_iff.mp hij.core
    refine ⟨?_, hij.output, ?_, ?_, h.depth, h.nonneg, hij.calls, ?_⟩
    · exact core_eq_iff.mpr ⟨by simp only [leave, houter, hinner], hpending⟩
    · rw [leave_exhausted, hij.live, Bool.false_and]
    · rw [leave_exhausted, hij.inlinedLive, Bool.false_and]
    · -- At the top level the floor of the inlining machine moves up with its calls.
      have hfloor := h.callFloor
      have hcalls := hext.calls
      unfold Machine.floor at hfloor ⊢
      change a.callFloor ≤ if b.depth = 0 then j.calls else b.callFloor
      split
      · next hb =>
        rw [if_pos hb] at hfloor
        omega
      · next hb =>
        rw [if_neg hb] at hfloor
        exact hfloor

theorem inlined_bound (hdepth : m.depth = 0) (htop : m.pending = none) (hlive : m.exhausted = false)
    (f : Function) (values : List Value) : Inlined (m.enter f values) (m.bound f values) where
  core := core_eq_iff.mpr ⟨rfl, htop.symm⟩
  output := rfl
  live := rfl
  inlinedLive := hlive
  depth := rfl
  nonneg := Int.le_of_eq hdepth.symm
  calls := rfl
  callFloor := by
    have hentered : (m.enter f values).callFloor = m.calls := if_pos hdepth
    have hbound : (m.bound f values).floor = m.calls := if_pos hdepth
    exact Int.le_of_eq (hentered.trans hbound.symm)

theorem Unrefused.agreesUnder (h : Unrefused config line a) : AgreesUnder config Inlined line a := by
  intro line' a' c b hreached hc hlive hcb
  have ha : c.caller.Admits config := by
    by_cases ha : c.caller.Admits config
    · exact ha
    · exact absurd ⟨c, hc, hlive, ha⟩ (h line' a' hreached)
  exact Or.inl ⟨ha, hcb.admits ha⟩

/-- What is inlined meets no limit that it did not meet in the call. -/
theorem Inlined.unrefused (h : Inlined a b) (ha : Unrefused config line a) : Unrefused config line b := by
  intro line' b' hreached hrefused
  obtain ⟨d, hd, hlive, hb⟩ := hrefused
  obtain ⟨a', hin, hab⟩ := (simulated_inlined config).reached h ha.agreesUnder hreached
  obtain ⟨caller, hc, hcaller⟩ := (simulated_inlined config).invocation_back hab hd
  apply ha line' a' hin
  exact ⟨_, hc, hcaller.live, fun hadmits => hb (hcaller.admits hadmits)⟩

theorem Inlined.execute (h : Inlined a b) (ha : Unrefused config line a) :
    Related Inlined (execute config line a) (execute config line b) :=
  (simulated_inlined config).execute h ha.agreesUnder

/-- The lines of a called body up to some point, and the same lines in place of the call. -/
theorem body_inlined {done rest : List Text} (h : c.Unrefused config) (hdepth : c.caller.depth = 0)
    (htop : c.caller.pending = none)
    (hvalues : (Arguments.split c.arguments).mapM (Literal.coerce c.caller.memory) = .ok values)
    (hbody : c.function.body = done ++ rest) :
    Related Inlined (runBody (Machine.execute config) done (c.caller.enter c.function values))
      (executeAll config done (c.caller.bound c.function values)) := by
  have hlive := h.admits.1
  have hstart := inlined_bound hdepth htop hlive c.function values
  have hinlinedDepth : (c.caller.bound c.function values).depth = 0 := hdepth
  have hinlinedLive : (c.caller.bound c.function values).exhausted = false := hlive
  rw [← runBody_eq_executeAll hinlinedDepth hinlinedLive]
  apply (simulated_inlined config).runLines hstart h.admits hvalues _ hbody
  intro next k b hr hkb
  exact hkb.execute (h.body next k hr)

/-- A call at the top level that hits no limit does what the lines of its body do in its
place: they hit no limit either, print what the call prints, end in the memory in which its
body ends, and count one call less. -/
theorem call_inlines_body {config : Config} {f : Function} {arguments : Text} {m n : Machine}
    (hdepth : m.depth = 0) (htop : m.pending = none)
    (hunrefused : Invocation.Unrefused config ⟨f, arguments, m⟩)
    (h : call config f arguments m = .ok n) :
    ∃ values inner last,
      (Arguments.split arguments).mapM (Literal.coerce m.memory) = .ok values ∧
      bodyEnd config f arguments m = .ok inner ∧
      n.memory = mergeScope config.scope m.memory inner.memory f.params ∧
      executeAll config f.body (m.bound f values) = .ok last ∧
      (∀ done line rest k, f.body = done ++ line :: rest →
        executeAll config done (m.bound f values) = .ok k → Unrefused config line k) ∧
      last.closeDefinition.output = n.output ∧
      last.closeDefinition.memory = inner.memory ∧
      last.closeDefinition.calls = n.calls - 1 := by
  rw [call_of_admits hunrefused.admits] at h
  obtain ⟨inner, hend, rfl⟩ := map_eq_ok.mp h
  obtain ⟨values, hvalues, hrun⟩ := bind_eq_ok.mp hend
  obtain ⟨k, hk, hinner⟩ := bind_eq_ok.mp hrun
  cases hinner
  have hwhole := body_inlined hunrefused hdepth htop hvalues (List.append_nil f.body).symm
  rw [hk] at hwhole
  obtain ⟨last, hlast, hkl⟩ := hwhole.exists_right
  have hclosed := (simulated_inlined config).closeDefinition hkl
  obtain ⟨hmemory, -⟩ := core_eq_iff.mp hclosed.core
  refine ⟨values, k.closeDefinition, last, hvalues, hend, rfl, hlast, ?_, hclosed.output.symm,
    hmemory.symm, ?_⟩
  · intro done line rest b hbody hb
    have hdone := body_inlined hunrefused hdepth htop hvalues hbody
    rw [hb] at hdone
    obtain ⟨a, ha, hab⟩ := hdone.exists_left
    apply hab.unrefused
    exact hunrefused.body line a ⟨hunrefused.admits, ⟨values, done, rest, hvalues, hbody, ha⟩, hab.live⟩
  · have hcalls := hclosed.calls
    rw [leave_calls]
    omega

/-- A function that changes a variable of its caller and calls a second function, which
prints the parameter of the first one. -/
def relay : Function := ⟨"f".toList, ["x".toList], ["y = x".toList, "g()".toList]⟩

def relayed : Machine where
  memory := [("y".toList, .undefined), ("g".toList, .function ⟨"g".toList, [], ["print(x)".toList]⟩)]

/-- Inlined, the two lines print the argument, set the variable and count one call. -/
theorem call_inlines_body_relay :
    ∃ n last, call { scope := .writeBack } relay "'a'".toList relayed = .ok n ∧
      executeAll { scope := .writeBack } relay.body (relayed.bound relay [.text ['a']]) = .ok last ∧
      last.closeDefinition.output = n.output ∧ n.output = [['a']] ∧
      last.closeDefinition.calls = n.calls - 1 := by
  have hn := Option.eq_some_of_isSome
    (o := (call { scope := .writeBack } relay "'a'".toList relayed).toOption) (by decide +kernel)
  have hcall := eq_ok_of_toOption hn
  have hunrefused : Invocation.Unrefused { scope := .writeBack } ⟨relay, "'a'".toList, relayed⟩ :=
    unrefused_of_output (by decide) rfl hcall (by decide +kernel)
  obtain ⟨values, inner, last, hvalues, -, -, hlast, -, houtput, -, hcalls⟩ :=
    call_inlines_body rfl rfl hunrefused hcall
  have hgiven : (Arguments.split "'a'".toList).mapM (Literal.coerce relayed.memory) =
      .ok [.text ['a']] := eq_ok_of_toOption (by decide +kernel)
  change (Arguments.split "'a'".toList).mapM (Literal.coerce relayed.memory) = .ok values at hvalues
  rw [hgiven] at hvalues
  cases hvalues
  exact ⟨_, last, hcall, hlast, houtput, by decide +kernel, hcalls⟩

end SnippetTutor.Machine
