import SnippetTutor.Proofs.Machine.Limits
import SnippetTutor.Proofs.Machine.Sequence
import SnippetTutor.Proofs.Machine.Simulation

/-! # What happened before a statement

A call limit counts from the outermost active call on. At the top level a statement
therefore does not see how much was printed or called before it, or whether an earlier call
ran into a limit. Inside a call this holds as long as the account of calls and its floor
are moved together.
That a statement has a result is said for a stack without bounds (`Fault`).
-/
namespace SnippetTutor.Machine
open Outcome

/-- Two machines that differ only in what was printed before and in how many calls were
counted before, the difference of the counts being `shift`. -/
structure Parallel (before₁ before₂ : List Text) (shift : Int) (a b : Machine) : Prop where
  core : a.core = b.core
  exhausted : a.exhausted = b.exhausted
  depth : a.depth = b.depth
  calls : b.calls = a.calls + shift
  callFloor : a.depth ≠ 0 → b.callFloor = a.callFloor + shift
  output : ∃ added, a.output = before₁ ++ added ∧ b.output = before₂ ++ added

variable {config : Config} {line : Text} {before₁ before₂ : List Text} {shift : Int}
  {a b m₁ m₂ : Machine}

theorem Parallel.floor (h : Parallel before₁ before₂ shift a b) : b.floor = a.floor + shift := by
  unfold Machine.floor
  rw [← h.depth]
  by_cases hd : a.depth = 0
  · rw [if_pos hd, if_pos hd, h.calls]
  · rw [if_neg hd, if_neg hd, h.callFloor hd]

theorem Parallel.admits_iff (h : Parallel before₁ before₂ shift a b) :
    a.Admits config ↔ b.Admits config := by
  have hfloor := h.floor
  have hcalls := h.calls
  unfold Admits
  rw [h.exhausted, h.depth]
  refine and_congr_right fun _ => and_congr_left fun _ => ?_
  omega

theorem Parallel.absorb (h : Parallel before₁ before₂ shift a b) (k : Machine) :
    Parallel before₁ before₂ shift (a.absorb k) (b.absorb k) where
  core := rfl
  exhausted := h.exhausted
  depth := h.depth
  calls := h.calls
  callFloor := h.callFloor
  output := by
    obtain ⟨added, ha, hb⟩ := h.output
    refine ⟨added ++ k.output, ?_, ?_⟩
    · rw [absorb_output, ha, List.append_assoc]
    · rw [absorb_output, hb, List.append_assoc]

theorem Parallel.abandon (h : Parallel before₁ before₂ shift a b) :
    Parallel before₁ before₂ shift a.abandon b.abandon where
  core := h.core
  exhausted := by rw [abandon_exhausted, abandon_exhausted, h.depth]
  depth := h.depth
  calls := h.calls
  callFloor := h.callFloor
  output := by
    obtain ⟨added, ha, hb⟩ := h.output
    refine ⟨added ++ [recursionMessage], ?_, ?_⟩
    · rw [abandon_output, ha, List.append_assoc]
    · rw [abandon_output, hb, List.append_assoc]

theorem simulated_parallel (config : Config) (before₁ before₂ : List Text) (shift : Int) :
    Simulated config (Parallel before₁ before₂ shift) where
  core h := h.core
  exhausted h := h.exhausted
  absorb h := h.absorb
  enter {a b} h _ _ f values := by
    obtain ⟨hmemory, -⟩ := core_eq_iff.mp h.core
    have hcalls := h.calls
    refine ⟨?_, rfl, ?_, ?_, fun _ => h.floor, h.output⟩
    · exact core_eq_iff.mpr ⟨by simp only [enter, hmemory], rfl⟩
    · simp only [enter_depth, h.depth]
    · simp only [enter]
      omega
  leave {a b i j} h hij _ _ f := by
    obtain ⟨houter, hpending⟩ := core_eq_iff.mp h.core
    obtain ⟨hinner, -⟩ := core_eq_iff.mp hij.core
    refine ⟨?_, ?_, h.depth, hij.calls, h.callFloor, hij.output⟩
    · exact core_eq_iff.mpr ⟨by simp only [leave, houter, hinner], hpending⟩
    · rw [leave_exhausted, leave_exhausted, hij.exhausted, h.depth]

theorem Parallel.agree (h : Parallel before₁ before₂ shift a b) :
    Agree config (Parallel before₁ before₂ shift) a b := by
  by_cases ha : a.Admits config
  · exact Or.inl ⟨ha, h.admits_iff.mp ha⟩
  · exact Or.inr ⟨ha, fun hb => ha (h.admits_iff.mpr hb), h.abandon⟩

theorem Parallel.execute (h : Parallel before₁ before₂ shift a b) :
    Related (Parallel before₁ before₂ shift) (execute config line a) (execute config line b) := by
  apply (simulated_parallel config before₁ before₂ shift).execute h
  intro line' a' c b' _ _ _ hc
  exact hc.agree

/-- Whole sequences of statements, inside a call or at the top level, run in parallel. -/
theorem Parallel.executeAll (lines : List Text) (h : Parallel before₁ before₂ shift a b) :
    Related (Parallel before₁ before₂ shift) (executeAll config lines a) (executeAll config lines b) := by
  induction lines generalizing a b with
  | nil => exact .ok h
  | cons line rest ih =>
    rw [Machine.executeAll, Machine.executeAll, List.foldlM_cons, List.foldlM_cons]
    exact h.execute.bind fun _ _ _ _ hnext => ih hnext

theorem parallel_of_top_level (hdepth₁ : m₁.depth = 0) (hdepth₂ : m₂.depth = 0)
    (hexhausted : m₁.exhausted = m₂.exhausted) (hmemory : m₁.memory = m₂.memory)
    (hpending : m₁.pending = m₂.pending) :
    Parallel m₁.output m₂.output (m₂.calls - m₁.calls) m₁ m₂ where
  core := core_eq_iff.mpr ⟨hmemory, hpending⟩
  exhausted := hexhausted
  depth := hdepth₁.trans hdepth₂.symm
  calls := by omega
  callFloor hne := absurd hdepth₁ hne
  output := ⟨[], (List.append_nil _).symm, (List.append_nil _).symm⟩

/-- At the top level a statement does the same, prints the same and makes the same number
of calls, whatever was printed and called before it. -/
theorem execute_ignores_history {config : Config} {line : Text} {m₁ m₂ : Machine}
    (hdepth₁ : m₁.depth = 0) (hdepth₂ : m₂.depth = 0)
    (hlive₁ : m₁.exhausted = false) (hlive₂ : m₂.exhausted = false)
    (hmemory : m₁.memory = m₂.memory) (hpending : m₁.pending = m₂.pending) :
    (∃ fault, execute config line m₁ = .error fault ∧ execute config line m₂ = .error fault) ∨
    ∃ n₁ n₂ added, execute config line m₁ = .ok n₁ ∧ execute config line m₂ = .ok n₂ ∧
      n₁.memory = n₂.memory ∧ n₁.pending = n₂.pending ∧
      n₁.exhausted = false ∧ n₂.exhausted = false ∧
      n₁.output = m₁.output ++ added ∧ n₂.output = m₂.output ++ added ∧
      n₁.calls - m₁.calls = n₂.calls - m₂.calls := by
  have hstart := parallel_of_top_level hdepth₁ hdepth₂ (hlive₁.trans hlive₂.symm) hmemory hpending
  have hrun : Related _ (execute config line m₁) (execute config line m₂) := hstart.execute
  cases h₁ : execute config line m₁ with
  | error fault =>
    rw [h₁] at hrun
    cases h₂ : execute config line m₂ with
    | error fault' =>
      rw [h₂] at hrun
      cases hrun
      exact Or.inl ⟨fault, rfl, rfl⟩
    | ok n₂ =>
      rw [h₂] at hrun
      cases hrun
  | ok n₁ =>
    rw [h₁] at hrun
    obtain ⟨n₂, h₂, hn⟩ := hrun.exists_right
    obtain ⟨added, houtput₁, houtput₂⟩ := hn.output
    have hcalls := hn.calls
    obtain ⟨hmemory, hpending⟩ := core_eq_iff.mp hn.core
    refine Or.inr ⟨n₁, n₂, added, rfl, h₂, hmemory, hpending, ?_, ?_, houtput₁, houtput₂, by omega⟩
    · exact (execute_returned h₁).live hdepth₁ hlive₁
    · exact (execute_returned h₂).live hdepth₂ hlive₂

/-- An earlier runaway call changes neither what the endless function prints nor how many
calls it makes. -/
theorem execute_ignores_history_endless :
    ∃ n₁ n₂, execute { maxDepth := 2 } "f()".toList endless = .ok n₁ ∧
      execute { maxDepth := 2 } "f()".toList
        { endless with output := [recursionMessage], calls := 7, callFloor := 3 } = .ok n₂ ∧
      n₂.output = recursionMessage :: n₁.output ∧ n₂.calls = n₁.calls + 7 := by
  have hn := Option.eq_some_of_isSome
    (o := (execute { maxDepth := 2 } "f()".toList endless).toOption) (by decide +kernel)
  have hhistory := @execute_ignores_history { maxDepth := 2 } "f()".toList endless
    { endless with output := [recursionMessage], calls := 7, callFloor := 3 } rfl rfl rfl rfl rfl rfl
  rcases hhistory with ⟨fault, h₁, -⟩ | ⟨n₁, n₂, added, h₁, h₂, -, -, -, -, ho₁, ho₂, hcalls⟩
  · rw [eq_ok_of_toOption hn] at h₁
    cases h₁
  · change n₁.output = [] ++ added at ho₁
    change n₂.output = [recursionMessage] ++ added at ho₂
    change n₁.calls - 0 = n₂.calls - 7 at hcalls
    exact ⟨n₁, n₂, h₁, h₂, by rw [ho₁, ho₂]; rfl, by omega⟩

end SnippetTutor.Machine
