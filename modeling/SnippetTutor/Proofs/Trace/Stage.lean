import SnippetTutor.Proofs.Machine.Sequence
import SnippetTutor.Proofs.Trace.Iteration

/-! # The stages of a run

A run taken apart into its steps, each with the machine from which it is taken. What a
record says of its step can then be compared with what the step has done to the machine.
-/
namespace SnippetTutor
open Outcome Machine

/-- A step, and the machine from which it is taken. -/
structure Stage where
  before : Machine
  step : Step

namespace Stage

/-- The lines of output that the step has added. -/
def added (s : Stage) : List Text := s.step.machine.output.drop s.before.output.length

/-- The line on which the step is taken, and what it makes of it. -/
structure At (config : Config) (lines : List Text) (s : Stage) (position : Nat) : Prop where
  line : lines[position]? = some s.step.record.source
  executable : isSkippable config.marker s.step.record.source = false
  visit : Step.visit config s.step.record.index position s.step.record.source
    (lines.drop (position + 1)) s.before = .ok s.step

end Stage

namespace Step

variable {config : Config} {marker line : Text} {lines later : List Text} {index count stop : Nat}
  {stepIndex : Int} {position : Nat} {m last : Machine} {step : Step} {records : List StepRecord}
  {stages : List Stage}

theorem isSkippable_of_nextExecutable? (h : nextExecutable? marker lines index = some position)
    (hl : lines.drop position = line :: later) : isSkippable marker line = false := by
  obtain ⟨i, hi, rfl⟩ := Option.map_eq_some_iff.mp h
  obtain ⟨hlt, hfound, -⟩ := List.findIdx?_eq_some_iff_getElem.mp hi
  have hline : (lines.drop index)[i]? = some line := by
    rw [List.getElem?_drop, Nat.add_comm, ← List.head?_drop, hl, List.head?_cons]
  rw [List.getElem?_eq_getElem hlt, Option.some.injEq] at hline
  rw [hline] at hfound
  simpa using hfound

/-- How many lines are to be executed. -/
def countExecutable (marker : Text) (lines : List Text) : Nat :=
  lines.countP fun line => !isSkippable marker line

theorem countExecutable_cons (marker line : Text) (lines : List Text) :
    countExecutable marker (line :: lines) =
      countExecutable marker lines + if isSkippable marker line then 0 else 1 := by
  rw [countExecutable, List.countP_cons]
  cases isSkippable marker line <;> rfl

theorem countExecutable_eq_zero : countExecutable marker lines = 0 ↔ isLast marker lines = true := by
  simp [countExecutable, isLast]

theorem nextExecutable?_eq_none : nextExecutable? marker lines index = none ↔
    countExecutable marker (lines.drop index) = 0 := by
  rw [nextExecutable?, Option.map_eq_none_iff, List.findIdx?_eq_none_iff, countExecutable, List.countP_eq_zero]
  simp

theorem exists_line_of_nextExecutable? (h : nextExecutable? marker lines index = some position) :
    ∃ line later, lines.drop position = line :: later ∧ isSkippable marker line = false := by
  obtain ⟨i, hi, rfl⟩ := Option.map_eq_some_iff.mp h
  obtain ⟨hlt, -, -⟩ := List.findIdx?_eq_some_iff_getElem.mp hi
  have hlength : i + index < lines.length := by
    rw [List.length_drop] at hlt
    omega
  have hdrop := List.drop_eq_getElem_cons hlength
  exact ⟨_, _, hdrop, isSkippable_of_nextExecutable? h hdrop⟩

/-- The next line to be executed is one of those that are counted. -/
theorem countExecutable_drop (h : nextExecutable? marker lines index = some position) :
    countExecutable marker (lines.drop index) = countExecutable marker (lines.drop (position + 1)) + 1 := by
  obtain ⟨hle, hbefore⟩ := isLast_of_nextExecutable? h
  obtain ⟨line, later, hl, hline⟩ := exists_line_of_nextExecutable? h
  have hdrop : (lines.drop index).drop (position - index) = line :: later := by
    rw [List.drop_drop, Nat.add_sub_cancel' hle, hl]
  have hskipped := countExecutable_eq_zero.mpr hbefore
  rw [drop_add_one hl, ← List.take_append_drop (position - index) (lines.drop index), hdrop]
  simp only [countExecutable, List.countP_append, List.countP_cons, hline] at hskipped ⊢
  simp [hskipped]

theorem nextExecutable?_of_take?_none (h : take? config lines index m stepIndex = .ok none) :
    nextExecutable? config.marker lines index = none := by
  cases hn : nextExecutable? config.marker lines index with
  | none => rfl
  | some position =>
    obtain ⟨line, later, hl, -⟩ := exists_line_of_nextExecutable? hn
    simp only [take?, Int.toNat_natCast, hn, hl] at h
    obtain ⟨step, -, hsome⟩ := map_eq_ok.mp h
    cases hsome

/-- What a record says of the line on which its step is taken. -/
theorem visit_record (h : visit config stepIndex position line later m = .ok step) :
    step.record.index = stepIndex ∧ step.record.lineNumber = position + 1 ∧
      step.record.source = line ∧ step.record.kind = kindOf config.marker line m := by
  obtain ⟨ran, -, h⟩ := bind_eq_ok.mp h
  cases h
  exact ⟨rfl, rfl, rfl, rfl⟩

theorem visit_added (h : visit config stepIndex position line later m = .ok step) :
    step.machine.output = m.output ++ (Stage.mk m step).added ∧
      step.record.output = StepRecord.joinOutput (Stage.mk m step).added := by
  obtain ⟨ran, hran, -, hmachine, -, hrecord⟩ := visit_eq_ok h
  refine ⟨?_, hrecord⟩
  have houtput : step.machine.output = ran.output := by
    rw [hmachine]
    split
    · exact closeDefinition_output ran
    · rfl
  obtain ⟨added, hadded⟩ := (execute_extends hran).output
  rw [Stage.added, houtput, ← hadded, List.drop_left]

theorem at_of_take? (h : take? config lines index m count = .ok (some step)) :
    ∃ position, nextExecutable? config.marker lines index = some position ∧
      Stage.At config lines ⟨m, step⟩ position := by
  obtain ⟨position, line, later, hn, hl, hv⟩ := exists_visit_of_take? h
  obtain ⟨hindex, -, hsource, -⟩ := visit_record hv
  have hline : lines[position]? = some line := by rw [← List.head?_drop, hl, List.head?_cons]
  refine ⟨position, hn, ?_, ?_, ?_⟩
  · rw [hsource, hline]
  · rw [hsource]
    exact isSkippable_of_nextExecutable? hn hl
  · rw [hsource, hindex, drop_add_one hl]
    exact hv

/-- The stages of the steps that are taken one after another from a position until none is
left, and the machine in which they end. -/
inductive Stages (config : Config) (lines : List Text) :
    Nat → Nat → Machine → List Stage → Machine → Prop
  | stop {index count : Nat} {m : Machine} : take? config lines index m count = .ok none →
      Stages config lines index count m [] m
  | next {index count : Nat} {m last : Machine} {step : Step} {stages : List Stage} :
      take? config lines index m count = .ok (some step) →
      Stages config lines step.next (count + 1) step.machine stages last →
      Stages config lines index count m (⟨m, step⟩ :: stages) last

theorem Iterates.exists_stages (h : Iterates config lines index count m records last) :
    ∃ stages, Stages config lines index count m stages last ∧
      records = stages.map fun s => s.step.record := by
  induction h with
  | stop ht => exact ⟨[], .stop ht, rfl⟩
  | next ht _ ih =>
    obtain ⟨stages, hstages, rfl⟩ := ih
    exact ⟨_, .next ht hstages, rfl⟩

/-- Some of these steps, with where they lead. More of them may be left there. -/
inductive Takes (config : Config) (lines : List Text) :
    Nat → Nat → Machine → List Stage → Nat → Machine → Prop
  | none {index count : Nat} {m : Machine} : Takes config lines index count m [] index m
  | next {index count stop : Nat} {m last : Machine} {step : Step} {stages : List Stage} :
      take? config lines index m count = .ok (some step) →
      Takes config lines step.next (count + 1) step.machine stages stop last →
      Takes config lines index count m (⟨m, step⟩ :: stages) stop last

theorem Stages.exists_takes (h : Stages config lines index count m stages last) :
    ∃ stop, Takes config lines index count m stages stop last := by
  induction h with
  | stop => exact ⟨_, .none⟩
  | next ht _ ih =>
    obtain ⟨stop, hrest⟩ := ih
    exact ⟨stop, .next ht hrest⟩

theorem Stages.exists_at (h : Stages config lines index count m stages last) :
    ∀ s ∈ stages, ∃ position, s.At config lines position := by
  induction h with
  | stop => simp
  | next ht _ ih =>
    obtain ⟨position, -, hat⟩ := at_of_take? ht
    rw [List.forall_mem_cons]
    exact ⟨⟨position, hat⟩, ih⟩

theorem Takes.eq_nil_of_isLast (h : Takes config lines index count m stages stop last)
    (hl : isLast config.marker (lines.drop index) = true) : stages = [] := by
  cases h with
  | none => rfl
  | next ht _ =>
    rw [take?_of_isLast hl] at ht
    cases ht

theorem Stages.eq_nil_of_isLast (h : Stages config lines index count m stages last)
    (hl : isLast config.marker (lines.drop index) = true) : stages = [] := by
  obtain ⟨stop, htakes⟩ := h.exists_takes
  exact htakes.eq_nil_of_isLast hl

theorem executeAll_of_at {start : Machine} {s : Stage} (hat : s.At config lines position)
    (h : executeAll config (lines.take position) start = .ok s.before) :
    ∃ ran, executeAll config (lines.take (position + 1)) start = .ok ran ∧
      s.step.next = position + 1 ∧ s.step.record.memory = s.step.machine.memory ∧
      s.step.machine =
        (if isLast config.marker (lines.drop (position + 1)) then ran.closeDefinition else ran) := by
  obtain ⟨ran, hran, hnext, hmachine, hmemory, -⟩ := visit_eq_ok hat.visit
  refine ⟨ran, ?_, hnext, hmemory, hmachine⟩
  rw [List.take_add_one, hat.line, executeAll_append, h]
  exact (executeAll_cons _ _ _).trans (bind_eq_ok.mpr ⟨ran, hran, rfl⟩)

/-- A step is taken from the machine that all lines before its own have made. -/
theorem Takes.executed {start : Machine} (h : Takes config lines index count m stages stop last)
    (hm : executeAll config (lines.take index) start = .ok m) :
    ∀ s ∈ stages, ∃ position, s.At config lines position ∧
      executeAll config (lines.take position) start = .ok s.before := by
  induction h with
  | none => simp
  | @next index count stop m last step stages ht hrest ih =>
    obtain ⟨position, hnext, hat⟩ := at_of_take? ht
    have hbefore : executeAll config (lines.take position) start = .ok m := by
      obtain ⟨hle, hskipped⟩ := isLast_of_nextExecutable? hnext
      have hsplit := List.take_add (l := lines) (i := index) (j := position - index)
      rw [Nat.add_sub_cancel' hle] at hsplit
      rw [hsplit, executeAll_append, hm]
      exact executeAll_of_skippable hskipped
    rw [List.forall_mem_cons]
    refine ⟨⟨position, hat, hbefore⟩, ?_⟩
    obtain ⟨ran, hran, hstepnext, -, hmachine⟩ := executeAll_of_at hat hbefore
    cases hlast : isLast config.marker (lines.drop (position + 1)) with
    | true =>
      -- the last step may complete a definition, but no step comes after it
      rw [← hstepnext] at hlast
      rw [hrest.eq_nil_of_isLast hlast]
      simp
    | false =>
      apply ih
      rw [hstepnext, hmachine, if_neg (by simp [hlast])]
      exact hran

theorem Stages.executed {start : Machine} (h : Stages config lines index count m stages last)
    (hm : executeAll config (lines.take index) start = .ok m) :
    ∀ s ∈ stages, ∃ position, s.At config lines position ∧
      executeAll config (lines.take position) start = .ok s.before := by
  obtain ⟨stop, htakes⟩ := h.exists_takes
  exact htakes.executed hm

/-- The memory from which a step is taken is the one that the record before it shows. -/
theorem Stages.memory_before {first rest : List Stage} {s : Stage}
    (h : Stages config lines index count m (first ++ s :: rest) last) :
    s.before.memory = ((first.map fun s => s.step.record).getLast?.map StepRecord.memory).getD m.memory := by
  induction first generalizing index count m with
  | nil =>
    cases h
    rfl
  | cons earlier first ih =>
    cases h with
    | next ht hrest =>
      rw [ih hrest, ← record_memory_of_take? ht, List.map_cons, List.getLast?_cons]
      cases (first.map fun s => s.step.record).getLast? <;> rfl

/-- The lines that the steps add make up the output that is new at the end. -/
theorem Stages.output (h : Stages config lines index count m stages last) :
    last.output = m.output ++ stages.flatMap Stage.added := by
  induction h with
  | stop => simp
  | @next index count m last step stages ht _ ih =>
    obtain ⟨position, -, hat⟩ := at_of_take? ht
    obtain ⟨hadded, -⟩ := visit_added hat.visit
    rw [ih, hadded, List.flatMap_cons, List.append_assoc]

end Step

namespace Trace
variable {config : Config} {lines : List Text} {T : Trace}

theorem exists_stages (h : ofLines config lines = .ok T) : ∃ stages last,
    Step.Stages config lines 0 0 .initial stages last ∧
      T.records = (stages.map fun s => s.step.record) ∧ T.memory = last.memory ∧
      T.output = stages.flatMap Stage.added := by
  obtain ⟨last, hr, hm, ho, -⟩ := ofLines_eq_ok h
  have hiter : Step.Iterates config lines 0 0 .initial T.records last := by
    rw [Step.iterates_iff_walk, List.drop_zero]
    exact hr
  obtain ⟨stages, hstages, hrecords⟩ := hiter.exists_stages
  refine ⟨stages, last, hstages, hrecords, hm, ?_⟩
  rw [ho, hstages.output]
  rfl

end Trace

end SnippetTutor
