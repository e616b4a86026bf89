import SnippetTutor.Proofs.Machine.Fault
import SnippetTutor.Proofs.Machine.Sequence
import SnippetTutor.Text.Lines

/-! # All lines that a run comes to

The lines that a run executes, those of the called bodies included, can be listed with the machines in
which they are executed. The list follows the run, so that a property of all these lines is decided by
going over it.
-/
namespace SnippetTutor
open Outcome

theorem mem_elim_nil_iff {α β : Type} {found : Option α} {list : α → List β} {x : β} :
    x ∈ found.elim [] list ↔ ∃ a, found = some a ∧ x ∈ list a := by
  cases found <;> simp

namespace Machine

variable {config : Config} {inside : Invocation → List (Text × Machine)} {line line' : Text} {lines : List Text}
  {m m' n : Machine} {c : Invocation}

/-- The lines from `m` on, up to the first one after which the calls unwind. Each of them is followed
by the lines inside of the call that it makes. -/
def visitedWith (config : Config) (inside : Invocation → List (Text × Machine)) :
    List Text → Machine → List (Text × Machine)
  | [], _ => []
  | line :: rest, m =>
    if m.exhausted then []
    else (line, m) :: (((invocation? config.marker line m).elim [] inside) ++
      match execute config line m with
      | .ok next => visitedWith config inside rest next
      | .error _ => [])

/-- The lines inside of a call that has `room` levels of nesting left. -/
def visitedInside (config : Config) : Nat → Invocation → List (Text × Machine)
  | 0, _ => []
  | room + 1, c =>
    if c.caller.Admits config then
      match (Arguments.split c.arguments).mapM (Literal.coerce c.caller.memory) with
      | .ok values =>
        visitedWith config (visitedInside config room) c.function.body (c.caller.enter c.function values)
      | .error _ => []
    else []

/-- The lines that a statement runs, the statement itself first. -/
def visited (config : Config) (line : Text) (m : Machine) : List (Text × Machine) :=
  (line, m) :: (invocation? config.marker line m).elim [] (visitedInside config (room config m.depth))

theorem mem_visitedWith_iff (hlive : m.exhausted = false) {visit : Text × Machine} :
    visit ∈ visitedWith config inside lines m ↔ ∃ done line rest n, lines = done ++ line :: rest ∧
      runBody (execute config) done m = .ok n ∧ n.exhausted = false ∧
      (visit = (line, n) ∨ ∃ c, invocation? config.marker line n = some c ∧ visit ∈ inside c) := by
  induction lines generalizing m with
  | nil => simp [visitedWith]
  | cons line rest ih =>
    rw [visitedWith, if_neg (by simp [hlive]), List.mem_cons, List.mem_append, mem_elim_nil_iff]
    constructor
    · rintro (rfl | hinside | hlater)
      · exact ⟨[], line, rest, m, rfl, rfl, hlive, Or.inl rfl⟩
      · exact ⟨[], line, rest, m, rfl, rfl, hlive, Or.inr hinside⟩
      · cases hx : execute config line m with
        | error fault =>
          rw [hx] at hlater
          cases hlater
        | ok next =>
          rw [hx] at hlater
          cases hnext : next.exhausted with
          | true => cases rest <;> simp [visitedWith, hnext] at hlater
          | false =>
            obtain ⟨done, other, more, n, rfl, hdone, hn, hvisit⟩ := (ih hnext).mp hlater
            refine ⟨line :: done, other, more, n, rfl, ?_, hn, hvisit⟩
            rw [runBody_cons_of_live hx hnext, hdone]
    · rintro ⟨done, other, more, n, hsplit, hdone, hn, hvisit⟩
      cases done with
      | nil =>
        obtain ⟨rfl, rfl⟩ := List.cons.inj hsplit
        cases hdone
        exact hvisit.imp_right Or.inl
      | cons first done =>
        obtain ⟨rfl, rfl⟩ := List.cons.inj hsplit
        obtain ⟨next, hx, -⟩ := bind_eq_ok.mp hdone
        refine Or.inr (Or.inr ?_)
        rw [hx]
        cases hnext : next.exhausted with
        | true =>
          rw [runBody_cons_of_exhausted hx hnext] at hdone
          cases hdone
          cases hnext.symm.trans hn
        | false =>
          rw [runBody_cons_of_live hx hnext] at hdone
          exact (ih hnext).mpr ⟨done, other, more, n, rfl, hdone, hn, hvisit⟩

/-- A call inside of a call has one level of nesting less. -/
theorem room_inside {d : Invocation} {k : Nat} (hr : Runs config c line m)
    (hd : invocation? config.marker line m = some d) (hk : room config c.caller.depth = k + 1) :
    room config d.caller.depth = k := by
  rw [room_succ hr.admits.2.2] at hk
  rw [invocation?_depth hd, hr.depth]
  omega

/-- What is listed inside of a call is what its body comes to. -/
theorem mem_visitedInside_iff {k : Nat} (hk : room config c.caller.depth = k) :
    (line', m') ∈ visitedInside config k c ↔
      ∃ next n, Runs config c next n ∧ Reached config next n line' m' := by
  induction k generalizing c with
  | zero =>
    refine iff_of_false (List.not_mem_nil) ?_
    rintro ⟨next, n, hr, -⟩
    exact absurd (room_eq_zero.mp hk) (Int.not_le.mpr hr.admits.2.2)
  | succ k ih =>
    rw [visitedInside]
    constructor
    · intro hvisit
      split at hvisit
      · next hadmits =>
        split at hvisit
        · next values hvalues =>
          obtain ⟨done, next, rest, n, hbody, hdone, hn, hvisit⟩ := (mem_visitedWith_iff rfl).mp hvisit
          have hr : Runs config c next n := ⟨hadmits, ⟨values, done, rest, hvalues, hbody, hdone⟩, hn⟩
          refine ⟨next, n, hr, ?_⟩
          rcases hvisit with heq | ⟨d, hd, hinside⟩
          · cases heq
            exact .here
          · obtain ⟨next', n', hr', hreached⟩ := (ih (room_inside hr hd hk)).mp hinside
            exact .inside hd hr' hreached
        · cases hvisit
      · cases hvisit
    · rintro ⟨next, n, hr, hreached⟩
      obtain ⟨values, done, rest, hvalues, hbody, hdone⟩ := hr.started
      rw [if_pos hr.admits, hvalues]
      refine (mem_visitedWith_iff rfl).mpr ⟨done, next, rest, n, hbody, hdone, hr.live, ?_⟩
      cases hreached with
      | here => exact Or.inl rfl
      | @inside _ next' _ _ n' _ d hd hr' hin =>
        exact Or.inr ⟨d, hd, (ih (room_inside hr hd hk)).mpr ⟨next', n', hr', hin⟩⟩

theorem mem_visited_iff : (line', m') ∈ visited config line m ↔ Reached config line m line' m' := by
  rw [visited, List.mem_cons, mem_elim_nil_iff]
  constructor
  · rintro (heq | ⟨c, hc, hinside⟩)
    · cases heq
      exact .here
    · obtain ⟨next, n, hr, hreached⟩ := (mem_visitedInside_iff (by rw [invocation?_depth hc])).mp hinside
      exact .inside hc hr hreached
  · intro hreached
    cases hreached with
    | here => exact Or.inl rfl
    | inside hc hr hin =>
      exact Or.inr ⟨_, hc, (mem_visitedInside_iff (by rw [invocation?_depth hc])).mpr ⟨_, _, hr, hin⟩⟩

end Machine

namespace Trace
open Machine

variable {config : Config} {source line' : Text} {m' : Machine}

/-- The lines that are run when a source is: those that the lines of the source reach,
each from the machine that the lines before it have made. -/
def Runs (config : Config) (source line' : Text) (m' : Machine) : Prop :=
  ∃ done line rest m, Text.lines source = done ++ line :: rest ∧
    executeAll config done .initial = .ok m ∧ Reached config line m line' m'

/-- The lines that are run when a source is, in the order in which they are. -/
def visited (config : Config) (source : Text) : List (Text × Machine) :=
  visitedWith config (visitedInside config (room config 0)) (Text.lines source) .initial

theorem mem_visited_iff_runs : (line', m') ∈ visited config source ↔ Runs config source line' m' := by
  rw [visited, mem_visitedWith_iff rfl, Runs]
  refine exists_congr fun done => exists_congr fun line => exists_congr fun rest => exists_congr fun m => ?_
  refine and_congr_right fun _ => ?_
  rw [runBody_eq_executeAll rfl rfl]
  refine and_congr_right fun hdone => ?_
  have hlive : m.exhausted = false := Reachable.live ⟨done, hdone⟩
  have hdepth : m.depth = 0 := Reachable.depth ⟨done, hdone⟩
  rw [and_iff_right hlive, ← mem_visited_iff, Machine.visited, hdepth, List.mem_cons, mem_elim_nil_iff]

end Trace

section Decidable
variable {P : Text → Machine → Prop} [∀ line m, Decidable (P line m)]

instance (config : Config) (line : Text) (m : Machine) :
    Decidable (∀ line' m', Machine.Reached config line m line' m' → P line' m') :=
  decidable_of_iff (∀ visit ∈ Machine.visited config line m, P visit.1 visit.2)
    ⟨fun h line' m' hreached => h (line', m') (Machine.mem_visited_iff.mpr hreached),
      fun h visit hvisit => h visit.1 visit.2 (Machine.mem_visited_iff.mp hvisit)⟩

instance (config : Config) (source : Text) :
    Decidable (∀ line' m', Trace.Runs config source line' m' → P line' m') :=
  decidable_of_iff (∀ visit ∈ Trace.visited config source, P visit.1 visit.2)
    ⟨fun h line' m' hruns => h (line', m') (Trace.mem_visited_iff_runs.mpr hruns),
      fun h visit hvisit => h visit.1 visit.2 (Trace.mem_visited_iff_runs.mp hvisit)⟩

end Decidable

end SnippetTutor
