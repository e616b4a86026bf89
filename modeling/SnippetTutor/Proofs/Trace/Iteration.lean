import SnippetTutor.Proofs.Outcome
import SnippetTutor.Trace.Run

/-! # Runs as iterated steps

A whole run goes over the lines once, while a step looks for its line from a position.
One step from a position is the head of the run from there, and so the steps that are
taken until none is left record exactly what the run records.
-/
namespace SnippetTutor
open Outcome

/-- The memory that the last of some records shows; it is empty before the first one. -/
def StepRecord.lastMemory (records : List StepRecord) : Memory :=
  (records.getLast?.map StepRecord.memory).getD []

namespace Step

variable {marker line : Text} {lines later : List Text} {index : Nat}

theorem drop_add_one (h : lines.drop index = line :: later) : lines.drop (index + 1) = later := by
  rw [← List.tail_drop, h, List.tail_cons]

theorem nextExecutable?_of_isLast (h : isLast marker (lines.drop index) = true) :
    nextExecutable? marker lines index = none := by
  rw [nextExecutable?, Option.map_eq_none_iff, List.findIdx?_eq_none_iff]
  intro line hline
  simpa using List.all_eq_true.mp h line hline

theorem nextExecutable?_of_executable (h : lines.drop index = line :: later)
    (hs : isSkippable marker line = false) : nextExecutable? marker lines index = some index := by
  simp [nextExecutable?, h, List.findIdx?_cons, hs]

theorem nextExecutable?_of_skippable (h : lines.drop index = line :: later)
    (hs : isSkippable marker line = true) :
    nextExecutable? marker lines index = nextExecutable? marker lines (index + 1) := by
  simp only [nextExecutable?, h, drop_add_one h, List.findIdx?_cons, hs, Bool.not_true, Bool.false_eq_true, if_false,
    Option.map_map]
  congr 1
  funext i
  simp only [Function.comp_apply]
  omega

variable {config : Config} {m : Machine} {count : Int} {position : Nat} {step : Step}

/-- Only lines that are skipped stand before the next one to be executed. -/
theorem isLast_of_nextExecutable? (h : nextExecutable? marker lines index = some position) :
    index ≤ position ∧ isLast marker ((lines.drop index).take (position - index)) = true := by
  obtain ⟨i, hi, rfl⟩ := Option.map_eq_some_iff.mp h
  obtain ⟨hlt, -, hbefore⟩ := List.findIdx?_eq_some_iff_getElem.mp hi
  refine ⟨by omega, ?_⟩
  rw [Nat.add_sub_cancel, isLast, List.all_eq_true]
  intro line hline
  obtain ⟨j, hj, rfl⟩ := List.mem_take_iff_getElem.mp hline
  simpa using hbefore j (by omega)

/-- What a visit records and where it goes on, apart from what the line does. -/
theorem visit_eq_ok (h : visit config count position line later m = .ok step) :
    ∃ ran, m.execute config line = .ok ran ∧ step.next = position + 1 ∧
      step.machine = (if isLast config.marker later then ran.closeDefinition else ran) ∧
      step.record.memory = step.machine.memory ∧
      step.record.output = StepRecord.joinOutput (step.machine.output.drop m.output.length) := by
  obtain ⟨ran, hr, h⟩ := bind_eq_ok.mp h
  cases h
  exact ⟨ran, hr, rfl, rfl, rfl, rfl⟩

theorem take?_of_no_executable (h : nextExecutable? config.marker lines index = none) :
    take? config lines index m count = .ok none := by
  simp [take?, h]

theorem take?_of_isLast (h : isLast config.marker (lines.drop index) = true) :
    take? config lines index m count = .ok none :=
  take?_of_no_executable (nextExecutable?_of_isLast h)

theorem take?_of_skippable (h : lines.drop index = line :: later)
    (hs : isSkippable config.marker line = true) :
    take? config lines index m count = take? config lines (index + 1 : Nat) m count := by
  simp only [take?, Int.toNat_natCast, nextExecutable?_of_skippable h hs]

theorem take?_of_executable (h : lines.drop index = line :: later)
    (hs : isSkippable config.marker line = false) :
    take? config lines index m count = (visit config count index line later m).map some := by
  simp only [take?, Int.toNat_natCast, nextExecutable?_of_executable h hs, h]

theorem exists_visit_of_take? (h : take? config lines index m count = .ok (some step)) :
    ∃ position line later, nextExecutable? config.marker lines index = some position ∧
      lines.drop position = line :: later ∧ visit config count position line later m = .ok step := by
  simp only [take?, Int.toNat_natCast] at h
  cases hn : nextExecutable? config.marker lines index with
  | none => simp [hn] at h
  | some position =>
    cases hl : lines.drop position with
    | nil => simp [hn, hl] at h
    | cons line later =>
      simp only [hn, hl] at h
      obtain ⟨visited, hv, he⟩ := map_eq_ok.mp h
      cases he
      exact ⟨position, line, later, rfl, hl, hv⟩

theorem lt_next_of_take? (h : take? config lines index m count = .ok (some step)) :
    index < step.next ∧ step.next ≤ lines.length := by
  obtain ⟨position, line, later, hn, hl, hv⟩ := exists_visit_of_take? h
  obtain ⟨hle, -⟩ := isLast_of_nextExecutable? hn
  obtain ⟨ran, -, hnext, -⟩ := visit_eq_ok hv
  have hlength := congrArg List.length hl
  simp only [List.length_drop, List.length_cons] at hlength
  omega

theorem record_memory_of_take? (h : take? config lines index m count = .ok (some step)) :
    step.record.memory = step.machine.memory := by
  obtain ⟨position, line, later, -, -, hv⟩ := exists_visit_of_take? h
  obtain ⟨ran, -, -, -, hm, -⟩ := visit_eq_ok hv
  exact hm

/-- Steps taken one after another from a position until none is left, with what they
record and the machine in which they end. -/
inductive Iterates (config : Config) (lines : List Text) :
    Nat → Nat → Machine → List StepRecord → Machine → Prop
  | stop {index count : Nat} {m : Machine} : take? config lines index m count = .ok none →
      Iterates config lines index count m [] m
  | next {index count : Nat} {m last : Machine} {step : Step} {records : List StepRecord} :
      take? config lines index m count = .ok (some step) →
      Iterates config lines step.next (count + 1) step.machine records last →
      Iterates config lines index count m (step.record :: records) last

end Step

namespace Run

def prepend (record : StepRecord) (r : Run) : Run := ⟨record :: r.records, r.ending⟩

/-- One step from a position is the head of the run from there. -/
theorem walk_eq_take? (config : Config) (lines : List Text) (index count : Nat) (m : Machine) :
    walk config index count m (lines.drop index) =
      match Step.take? config lines index m count with
      | .error fault => ⟨[], .error fault⟩
      | .ok none => ⟨[], .ok m⟩
      | .ok (some step) =>
        (walk config step.next (count + 1) step.machine (lines.drop step.next)).prepend step.record := by
  induction hl : lines.drop index generalizing index with
  | nil =>
    have hlast : Step.isLast config.marker (lines.drop index) = true := by rw [hl, Step.isLast, List.all_nil]
    rw [Step.take?_of_isLast hlast, walk]
  | cons line later ih =>
    have hn : lines.drop (index + 1) = later := Step.drop_add_one hl
    cases hs : isSkippable config.marker line with
    | true =>
      rw [walk, if_pos hs, Step.take?_of_skippable hl hs]
      exact ih (index + 1) hn
    | false =>
      rw [walk, if_neg (by simp [hs]), Step.take?_of_executable hl hs]
      cases hv : Step.visit config count index line later m with
      | error fault => rfl
      | ok step =>
        obtain ⟨ran, -, hnext, -⟩ := Step.visit_eq_ok hv
        simp only [Except.map, hnext, hn]
        rfl

end Run

namespace Step
variable {config : Config} {lines : List Text} {index count : Nat} {m last : Machine}
  {records : List StepRecord}

/-- Stepping until none is left is the run without a fault. -/
theorem iterates_iff_walk : Iterates config lines index count m records last ↔
    Run.walk config index count m (lines.drop index) = ⟨records, .ok last⟩ := by
  constructor
  · intro h
    induction h with
    | stop ht => rw [Run.walk_eq_take?, ht]
    | next ht _ ih =>
      rw [Run.walk_eq_take?, ht]
      simp only [ih, Run.prepend]
  · intro h
    induction records generalizing index count m with
    | nil =>
      rw [Run.walk_eq_take?] at h
      split at h
      · cases h
      · next ht =>
        cases h
        exact .stop ht
      · cases h
    | cons record rest ih =>
      rw [Run.walk_eq_take?] at h
      split at h
      · cases h
      · cases h
      · next step ht =>
        simp only [Run.prepend, Run.mk.injEq, List.cons.injEq] at h
        obtain ⟨⟨rfl, hr⟩, he⟩ := h
        refine .next ht (ih ?_)
        rw [← hr, ← he]

theorem Iterates.memory (h : Iterates config lines index count m records last) :
    last.memory = (records.getLast?.map StepRecord.memory).getD m.memory := by
  induction h with
  | stop => rfl
  | @next index count m last step records ht _ ih =>
    rw [ih, ← record_memory_of_take? ht, List.getLast?_cons]
    cases records.getLast? <;> rfl

end Step

namespace Trace
variable {config : Config} {source : Text} {lines : List Text} {T : Trace}

theorem ofLines_eq_ok (h : ofLines config lines = .ok T) : ∃ last : Machine,
    Run.ofLines config lines = ⟨T.records, .ok last⟩ ∧ T.memory = last.memory ∧
      T.output = last.output ∧ T.stats = .ofRun config.marker lines T.records last := by
  obtain ⟨last, hl, h⟩ := bind_eq_ok.mp h
  cases h
  exact ⟨last, by rw [← hl], rfl, rfl, rfl⟩

theorem exists_ofLines_iff :
    (∃ T, ofLines config lines = .ok T) ↔ ∃ last, (Run.ofLines config lines).ending = .ok last := by
  constructor
  · rintro ⟨T, hT⟩
    obtain ⟨last, hlast, -⟩ := bind_eq_ok.mp hT
    exact ⟨last, hlast⟩
  · rintro ⟨last, hlast⟩
    exact ⟨_, bind_eq_ok.mpr ⟨last, hlast, rfl⟩⟩

theorem ofSource_eq_ok (h : ofSource config source = .ok T) : ∃ last : Machine,
    Run.ofLines config (Text.lines source) = ⟨T.records, .ok last⟩ ∧
      T.memory = last.memory ∧ T.output = last.output := by
  obtain ⟨last, hr, hm, ho, -⟩ := ofLines_eq_ok h
  exact ⟨last, hr, hm, ho⟩

theorem ofSource_eq_error {fault : Fault} :
    ofSource config source = .error fault ↔
      (Run.ofLines config (Text.lines source)).ending = .error fault := by
  simp only [ofSource, ofLines, ofRun, bind_eq_error, reduceCtorEq, and_false, exists_false, or_false]

/-- The steps taken from the start until none is left record the trace, and nothing
else can come of taking them. -/
theorem iterates_iff (h : ofLines config lines = .ok T) : ∃ last : Machine,
    (∀ records m, Step.Iterates config lines 0 0 .initial records m ↔
      records = T.records ∧ m = last) ∧
    T.memory = last.memory ∧ T.output = last.output := by
  obtain ⟨last, hr, hm, ho, -⟩ := ofLines_eq_ok h
  refine ⟨last, ?_, hm, ho⟩
  intro records m
  rw [Step.iterates_iff_walk, List.drop_zero]
  change Run.ofLines config lines = _ ↔ _
  rw [hr]
  simp only [Run.mk.injEq, Except.ok.injEq, eq_comm]

theorem memory_eq_lastMemory (h : ofLines config lines = .ok T) :
    T.memory = StepRecord.lastMemory T.records := by
  obtain ⟨last, hiter, hm, -⟩ := iterates_iff h
  rw [hm]
  exact ((hiter T.records last).mpr ⟨rfl, rfl⟩).memory

end Trace

end SnippetTutor
