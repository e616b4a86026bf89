import SnippetTutor.Proofs.Machine.Core

/-! # Two runs side by side

Two machines with the same memory and the same pending definition do the same under a
line, except where a limit refuses a call to only one of them. A relation between such
machines that survives the changes a line makes, the entry into a body and the return from
it therefore holds again after the line, as long as the limits treat both machines alike.
-/
namespace SnippetTutor.Machine
open Outcome

/-- The limits treat a call of the two machines alike. -/
def Agree (config : Config) (R : Machine → Machine → Prop) (a b : Machine) : Prop :=
  (a.Admits config ∧ b.Admits config) ∨
    (¬ a.Admits config ∧ ¬ b.Admits config ∧ R a.abandon b.abandon)

/-- The limits treat every call that is made under a line like the same call of a related
machine. -/
def AgreesUnder (config : Config) (R : Machine → Machine → Prop) (line : Text) (a : Machine) : Prop :=
  ∀ line' a' c b, Reached config line a line' a' → invocation? config.marker line' a' = some c →
    c.caller.exhausted = false → R c.caller b → Agree config R c.caller b

/-- What a relation must survive to hold again after every line. -/
structure Simulated (config : Config) (R : Machine → Machine → Prop) : Prop where
  core : ∀ {a b}, R a b → a.core = b.core
  exhausted : ∀ {a b}, R a b → a.exhausted = b.exhausted
  absorb : ∀ {a b}, R a b → ∀ k, R (a.absorb k) (b.absorb k)
  enter : ∀ {a b}, R a b → a.Admits config → b.Admits config →
    ∀ f values, R (a.enter f values) (b.enter f values)
  leave : ∀ {a b i j}, R a b → R i j → a.Extends i → b.Extends j →
    ∀ f, R (a.leave config.scope f i) (b.leave config.scope f j)

variable {config : Config} {line line' next : Text} {body done rest : List Text} {f : Function}
  {arguments : Text} {m n a b b' k : Machine} {c d : Invocation}

theorem AgreesUnder.inside {R : Machine → Machine → Prop} (h : AgreesUnder config R line a)
    (hc : invocation? config.marker line a = some c) (hr : Runs config c next k) :
    AgreesUnder config R next k := by
  intro line' a' d b hin
  exact h line' a' d b (.inside hc hr hin)

theorem bodyEnd_extends (h : bodyEnd config f arguments m = .ok n) : m.Extends n := by
  obtain ⟨values, -, h⟩ := bind_eq_ok.mp h
  obtain ⟨last, hrun, h⟩ := bind_eq_ok.mp h
  cases h
  have hbody := (respected_extends config.scope).runBody (fun _ _ _ => execute_extends) hrun
  exact (enter_extends m f values).trans (hbody.trans (closeDefinition_extends last))

namespace Simulated
variable {R : Machine → Machine → Prop} (hR : Simulated config R)
include hR

theorem memory (h : R a b) : a.memory = b.memory := (core_eq_iff.mp (hR.core h)).1

theorem closeDefinition (h : R a b) : R a.closeDefinition b.closeDefinition := by
  rw [← absorb_closeDefinition a, ← absorb_closeDefinition b, hR.core h]
  exact hR.absorb h _

/-- A call that one machine makes under a line is made by the other one too. -/
theorem invocation (h : R a b) (hc : invocation? config.marker line a = some c) :
    ∃ b', invocation? config.marker line b = some ⟨c.function, c.arguments, b'⟩ ∧ R c.caller b' := by
  have hcore := invocation?_core config.marker line a
  rw [hR.core h, invocation?_core, hc] at hcore
  obtain ⟨d, hd, hdc⟩ := Option.map_eq_some_iff.mp hcore
  obtain ⟨f, given, b'⟩ := d
  obtain ⟨rfl, rfl, hb⟩ := Invocation.mk.inj hdc
  have hb' : b' = b.absorb c.caller.core := (invocation?_absorb hd).trans (congrArg b.absorb hb)
  refine ⟨b', hd, ?_⟩
  rw [invocation?_absorb hc, hb']
  exact hR.absorb h _

theorem no_invocation (h : R a b) (hc : invocation? config.marker line a = none) :
    invocation? config.marker line b = none := by
  have hcore := invocation?_core config.marker line a
  rw [hR.core h, invocation?_core, hc] at hcore
  exact Option.map_eq_none_iff.mp hcore

theorem invocation_back (h : R a b) (hd : invocation? config.marker line b = some d) :
    ∃ a', invocation? config.marker line a = some ⟨d.function, d.arguments, a'⟩ ∧ R a' d.caller := by
  cases hc : invocation? config.marker line a with
  | none =>
    rw [hR.no_invocation h hc] at hd
    cases hd
  | some c =>
    obtain ⟨b', hd', hb⟩ := hR.invocation h hc
    rw [hd] at hd'
    cases hd'
    exact ⟨c.caller, rfl, hb⟩

theorem own (h : R a b) (hc : invocation? config.marker line a = none) :
    Related R (Machine.execute config line a) (Machine.execute config line b) := by
  have ha : Machine.execute config line a = (Machine.execute config line a.core).map a.absorb :=
    executeWith_core hc
  have hb : Machine.execute config line b = (Machine.execute config line b.core).map b.absorb :=
    executeWith_core (hR.no_invocation h hc)
  rw [ha, hb, hR.core h]
  cases Machine.execute config line b.core with
  | error fault => exact .error
  | ok k => exact .ok (hR.absorb h k)

/-- A body is run side by side if each of its lines is. -/
theorem runBody (h : R a b) (hlive : a.exhausted = false)
    (hlines : ∀ done next rest k b', body = done ++ next :: rest →
      Machine.runBody (Machine.execute config) done a = .ok k → k.exhausted = false → R k b' →
      Related R (Machine.execute config next k) (Machine.execute config next b')) :
    Related R (Machine.runBody (Machine.execute config) body a)
      (Machine.runBody (Machine.execute config) body b) := by
  induction body generalizing a b with
  | nil => exact .ok h
  | cons line rest ih =>
    have hfirst := hlines [] line rest a b rfl rfl hlive h
    refine hfirst.bind ?_
    intro k b' hk _ hkb
    rw [← hR.exhausted hkb]
    split
    · exact .ok hkb
    · next hklive =>
      have hklive : k.exhausted = false := by simpa using hklive
      apply ih hkb hklive
      intro done next more i j hrest hrun
      apply hlines (line :: done) next more i j
      · rw [hrest, List.cons_append]
      · rw [runBody_cons_of_live hk hklive]
        exact hrun

/-- The lines of a called body up to some point, run beside a related machine. -/
theorem runLines {values : List Value} (h : R (c.caller.enter c.function values) b)
    (ha : c.caller.Admits config)
    (hvalues : (Arguments.split c.arguments).mapM (Literal.coerce c.caller.memory) = .ok values)
    (hlines : ∀ next k b', Runs config c next k → R k b' →
      Related R (Machine.execute config next k) (Machine.execute config next b'))
    (hbody : c.function.body = done ++ rest) :
    Related R (Machine.runBody (Machine.execute config) done (c.caller.enter c.function values))
      (Machine.runBody (Machine.execute config) done b) := by
  apply hR.runBody h rfl
  intro before next after k b' hdone hrun hlive
  apply hlines next k b'
  refine ⟨ha, ⟨values, before, after ++ rest, hvalues, ?_, hrun⟩, hlive⟩
  rw [hbody, hdone, List.append_assoc, List.cons_append]

theorem call (h : R c.caller b)
    (hagree : c.caller.exhausted = false → Agree config R c.caller b)
    (hlines : ∀ next k b', Runs config c next k → R k b' →
      Related R (Machine.execute config next k) (Machine.execute config next b')) :
    Related R (Machine.call config c.function c.arguments c.caller)
      (Machine.call config c.function c.arguments b) := by
  have hexhausted := hR.exhausted h
  cases he : c.caller.exhausted with
  | true =>
    rw [call_of_exhausted he, call_of_exhausted (hexhausted ▸ he)]
    exact .ok h
  | false =>
    rcases hagree he with ⟨ha, hb⟩ | ⟨ha, hb, habandon⟩
    · rw [call_of_admits ha, call_of_admits hb]
      have hend : Related R (bodyEnd config c.function c.arguments c.caller)
          (bodyEnd config c.function c.arguments b) := by
        unfold bodyEnd
        rw [← hR.memory h]
        cases hvalues : (Arguments.split c.arguments).mapM (Literal.coerce c.caller.memory) with
        | error fault => exact .error
        | ok values =>
          have hstart := hR.enter h ha hb c.function values
          have hrun := hR.runLines hstart ha hvalues hlines (List.append_nil _).symm
          exact hrun.bind fun _ _ _ _ hij => .ok (hR.closeDefinition hij)
      refine hend.map ?_
      intro i j hi hj hij
      exact hR.leave h hij (bodyEnd_extends hi) (bodyEnd_extends hj) c.function
    · rw [call_of_refused he ha, call_of_refused (hexhausted ▸ he) hb]
      exact .ok habandon

/-- Related machines are related after a line, or the line fails with the same fault. -/
theorem execute (h : R a b) (hagree : AgreesUnder config R line a) :
    Related R (Machine.execute config line a) (Machine.execute config line b) := by
  induction a using depth_induction config generalizing line b with
  | step a ih =>
    cases hc : invocation? config.marker line a with
    | none => exact hR.own h hc
    | some c =>
      obtain ⟨b', hd, hb⟩ := hR.invocation h hc
      rw [execute_of_invocation hc, execute_of_invocation hd]
      apply hR.call hb
      · intro he
        exact hagree line a c b' .here hc he hb
      · intro next k j hr hkj
        obtain ⟨hlt, hdepth⟩ := hr.deeper hc
        exact ih hlt k hdepth hkj (hagree.inside hc hr)

theorem runs (h : R c.caller b) (ha : c.caller.Admits config)
    (hlines : ∀ next k b', Runs config c next k → R k b' →
      Related R (Machine.execute config next k) (Machine.execute config next b'))
    (hr : Runs config ⟨c.function, c.arguments, b⟩ next b') : ∃ k, Runs config c next k ∧ R k b' := by
  obtain ⟨hb, ⟨values, done, rest, hvalues, hbody, hrun⟩, hlive⟩ := hr
  rw [← hR.memory h] at hvalues
  have hstart := hR.enter h ha hb c.function values
  have hdone := hR.runLines hstart ha hvalues hlines hbody
  rw [hrun] at hdone
  obtain ⟨k, hk, hkb⟩ := hdone.exists_left
  have hklive : k.exhausted = false := (hR.exhausted hkb).trans hlive
  exact ⟨k, ⟨ha, ⟨values, done, rest, hvalues, hbody, hk⟩, hklive⟩, hkb⟩

/-- Every line that the one machine comes to, the other comes to as well. -/
theorem reached (h : R a b) (hagree : AgreesUnder config R line a)
    (hreached : Reached config line b line' b') : ∃ a', Reached config line a line' a' ∧ R a' b' := by
  induction hreached generalizing a with
  | here => exact ⟨a, .here, h⟩
  | @inside line next line' b j b' d hd hr _ ih =>
    obtain ⟨caller, hc, hcaller⟩ := hR.invocation_back h hd
    have hlive : caller.exhausted = false := (hR.exhausted hcaller).trans hr.admits.1
    rcases hagree line a _ d.caller .here hc hlive hcaller with ⟨ha, -⟩ | ⟨-, hb, -⟩
    · obtain ⟨k, hk, hkj⟩ := hR.runs (c := ⟨d.function, d.arguments, caller⟩) hcaller ha
        (fun next k i hrk hki => hR.execute hki (hagree.inside hc hrk)) hr
      obtain ⟨a', hin, hab⟩ := ih hkj (hagree.inside hc hk)
      exact ⟨a', .inside hc hk hin, hab⟩
    · exact absurd hr.admits hb

end Simulated

end SnippetTutor.Machine
