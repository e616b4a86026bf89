import SnippetTutor.Proofs.Machine.Change
import SnippetTutor.Proofs.Statement.Indentation

/-! # Statements one after another

A source is executed line by line from the initial machine. Every statement comes back to
the level of calls at which it began, and at the top level it leaves nothing unwinding. A
call limit that was hit in one statement is therefore forgotten by the next one.
-/
namespace SnippetTutor.Machine
open Outcome

/-- Executes the lines one after another. -/
def executeAll (config : Config) (lines : List Text) (m : Machine) : Except Fault Machine :=
  lines.foldlM (fun m line => execute config line m) m

/-- The machines that come of executing lines from the initial one. -/
def Reachable (config : Config) (m : Machine) : Prop :=
  ∃ lines, executeAll config lines .initial = .ok m

variable {config : Config} {line : Text} {lines : List Text} {m n : Machine}

theorem executeAll_cons (line : Text) (rest : List Text) (m : Machine) :
    executeAll config (line :: rest) m = execute config line m >>= executeAll config rest :=
  List.foldlM_cons

theorem executeAll_append (first second : List Text) (m : Machine) :
    executeAll config (first ++ second) m = executeAll config first m >>= executeAll config second :=
  List.foldlM_append

theorem execute_of_skippable (h : isSkippable config.marker line = true) :
    execute config line m = .ok m := by
  rcases Statement.ofLine_of_skippable h with hs | ⟨text, hs⟩
  · simp [execute, executeWith, hs]
  · simp [execute, executeWith, hs]

theorem executeAll_of_skippable (h : lines.all (isSkippable config.marker) = true) :
    executeAll config lines m = .ok m := by
  induction lines with
  | nil => rfl
  | cons line rest ih =>
    rw [List.all_cons, Bool.and_eq_true] at h
    rw [executeAll_cons, execute_of_skippable h.1]
    exact ih h.2

/-- The machine is back at the level of calls at which it was. -/
structure Returned (m n : Machine) : Prop where
  depth : n.depth = m.depth
  callFloor : n.callFloor = m.callFloor
  live : m.depth = 0 → m.exhausted = false → n.exhausted = false

theorem closeDefinition_returned (m : Machine) : Returned m m.closeDefinition := by
  refine ⟨closeDefinition_depth m, ?_, ?_⟩
  · unfold closeDefinition
    split <;> rfl
  · intro _ hlive
    rw [closeDefinition_exhausted, hlive]

theorem respected_returned (policy : ScopePolicy) : Respected policy Returned where
  refl _ := ⟨rfl, rfl, fun _ hlive => hlive⟩
  trans hab hbc := by
    refine ⟨hbc.depth.trans hab.depth, hbc.callFloor.trans hab.callFloor, ?_⟩
    intro hdepth hlive
    exact hbc.live (hab.depth.trans hdepth) (hab.live hdepth hlive)
  header _ _ _ := ⟨rfl, rfl, fun _ hlive => hlive⟩
  emit _ _ := ⟨rfl, rfl, fun _ hlive => hlive⟩
  bind _ _ _ := ⟨rfl, rfl, fun _ hlive => hlive⟩
  collect _ _ := ⟨rfl, rfl, fun _ hlive => hlive⟩
  close := closeDefinition_returned
  abandon m := ⟨rfl, rfl, fun hdepth _ => by simp [hdepth]⟩
  leave _ := ⟨rfl, rfl, fun hdepth _ => by simp [hdepth]⟩

theorem execute_returned (h : execute config line m = .ok n) : Returned m n :=
  (respected_returned config.scope).execute h

theorem executeAll_keeps {P : Machine → Prop}
    (hline : ∀ line ∈ lines, ∀ k k', P k → execute config line k = .ok k' → P k')
    (hm : P m) (h : executeAll config lines m = .ok n) : P n := by
  induction lines generalizing m with
  | nil =>
    cases h
    exact hm
  | cons line rest ih =>
    rw [executeAll_cons] at h
    obtain ⟨next, hnext, h⟩ := bind_eq_ok.mp h
    apply ih _ (hline line List.mem_cons_self m next hm hnext) h
    intro line hmem
    exact hline line (List.mem_cons_of_mem _ hmem)

theorem Respected.executeAll {P : Machine → Machine → Prop} (hP : Respected config.scope P)
    (h : executeAll config lines m = .ok n) : P m n := by
  apply executeAll_keeps _ (hP.refl m) h
  intro line _ k k' hk hx
  exact hP.trans hk (hP.execute hx)

theorem Reachable.returned (h : Reachable config m) : Returned .initial m := by
  obtain ⟨lines, hlines⟩ := h
  exact (respected_returned config.scope).executeAll hlines

theorem Reachable.depth (h : Reachable config m) : m.depth = 0 := h.returned.depth

theorem Reachable.live (h : Reachable config m) : m.exhausted = false := h.returned.live rfl rfl

/-- At the top level a limit that is hit ends no more than its own line. -/
theorem runBody_eq_executeAll (hdepth : m.depth = 0) (hlive : m.exhausted = false) :
    runBody (execute config) lines m = executeAll config lines m := by
  induction lines generalizing m with
  | nil => rfl
  | cons line rest ih =>
    rw [executeAll_cons]
    cases hnext : execute config line m with
    | error fault => simp only [runBody, hnext, Bind.bind, Except.bind]
    | ok next =>
      have hreturned := execute_returned hnext
      have hnextlive := hreturned.live hdepth hlive
      rw [runBody_cons_of_live hnext hnextlive]
      exact ih (hreturned.depth.trans hdepth) hnextlive

end SnippetTutor.Machine
