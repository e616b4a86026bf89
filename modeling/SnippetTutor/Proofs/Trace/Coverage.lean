import SnippetTutor.Proofs.Machine.Bodies
import SnippetTutor.Proofs.Trace.Stage
import SnippetTutor.Proofs.Trace.Walk

/-! # Which lines a trace covers

A run decides by itself which lines it skips, and a record finds the kind of its line without
being told what was done with it. Both agree with the execution: a run takes one step on each
line that is neither blank nor a comment, and what the record says is what was done.
-/
namespace SnippetTutor
open Outcome

theorem Shape.kind_ne_functionBodyLine (shape : Shape) : shape.kind ≠ .functionBodyLine := by
  cases shape <;> simp [Shape.kind]

namespace Run

variable {config : Config} {lines : List Text} {position count : Nat}
  {m last : Machine} {records : List StepRecord}

theorem walk_lineNumbers (h : walk config position count m lines = ⟨records, .ok last⟩) :
    (records.map fun r => r.lineNumber - 1) =
      (lines.findIdxs (fun line => !isSkippable config.marker line) position).map Nat.cast := by
  induction lines generalizing position count m records with
  | nil =>
    cases h
    rfl
  | cons line later ih =>
    rw [List.findIdxs_cons]
    cases hs : isSkippable config.marker line with
    | true =>
      rw [walk_of_skippable hs] at h
      exact ih h
    | false =>
      obtain ⟨step, rest, hv, hrest, rfl⟩ := exists_visit_of_walk hs h
      obtain ⟨-, hnumber, -, -⟩ := Step.visit_record hv
      have hhead : step.record.lineNumber - 1 = position := by omega
      rw [List.map_cons, hhead, ih hrest]
      rfl

theorem walk_indices (h : walk config position count m lines = ⟨records, .ok last⟩) :
    records.map StepRecord.index = (List.range' count records.length).map Nat.cast := by
  induction lines generalizing position count m records with
  | nil =>
    cases h
    rfl
  | cons line later ih =>
    cases hs : isSkippable config.marker line with
    | true =>
      rw [walk_of_skippable hs] at h
      exact ih h
    | false =>
      obtain ⟨step, rest, hv, hrest, rfl⟩ := exists_visit_of_walk hs h
      obtain ⟨hindex, -, -, -⟩ := Step.visit_record hv
      rw [List.length_cons, List.range'_succ, List.map_cons, List.map_cons, hindex, ih hrest]

theorem walk_length (h : walk config position count m lines = ⟨records, .ok last⟩) :
    records.length + lines.countP (isSkippable config.marker) = lines.length := by
  have hlength := congrArg List.length (walk_lineNumbers h)
  rw [List.length_map, List.length_map, List.length_findIdxs] at hlength
  rw [hlength, Nat.add_comm, List.length_eq_countP_add_countP (isSkippable config.marker)]
  congr 2
  funext line
  simp

end Run

/-- Every line that is neither blank nor a comment has its record. -/
theorem Trace.exists_record {config : Config} {lines : List Text} {line : Text} {position : Nat} {T : Trace}
    (h : ofLines config lines = .ok T) (hline : lines[position]? = some line)
    (hs : isSkippable config.marker line = false) : ∃ r ∈ T.records, r.lineNumber = position + 1 := by
  obtain ⟨last, hrun, -⟩ := ofLines_eq_ok h
  have hlines := Run.walk_lineNumbers hrun
  obtain ⟨hlt, rfl⟩ := List.getElem?_eq_some_iff.mp hline
  have hmem : position ∈ lines.findIdxs fun line => !isSkippable config.marker line :=
    List.mem_findIdxs_iff_exists_getElem_pos.mpr ⟨hlt, by simp [hs]⟩
  have hcovered : (position : Int) ∈ T.records.map fun r => r.lineNumber - 1 := by
    rw [hlines]
    exact List.mem_map_of_mem hmem
  obtain ⟨r, hr, hnumber⟩ := List.mem_map.mp hcovered
  exact ⟨r, hr, by omega⟩

namespace Step
open Machine

variable {config : Config} {marker line text : Text} {m n : Machine} {shape : Shape}

theorem stored_or_performed (m : Machine) (h : isSkippable marker line = false) :
    (m.isCollecting = true ∧ ∃ text, Statement.ofLine marker line = .bodyLine text) ∨
      ∃ shape n, performed? marker line m = some (shape, n) := by
  rw [performed?, Statement.ofLine_of_executable h]
  cases isIndented line with
  | false => exact Or.inr ⟨_, _, rfl⟩
  | true =>
    cases hc : m.isCollecting with
    | true => exact Or.inl ⟨rfl, _, rfl⟩
    | false => exact Or.inr ⟨_, _, rfl⟩

theorem kindOf_of_stored (hc : m.isCollecting = true) (h : Statement.ofLine marker line = .bodyLine text) :
    kindOf marker line m = .functionBodyLine := by
  simp [kindOf, h, Statement.kind, hc]

/-- The kind that a record finds is that of the shape in which the line is performed. -/
theorem kindOf_of_performed (h : performed? marker line m = some (shape, n)) :
    kindOf marker line m = shape.kind := by
  simp only [performed?] at h
  cases hs : Statement.ofLine marker line with
  | blank | comment => simp [hs] at h
  | shaped text found =>
    simp only [hs, Option.some.injEq, Prod.mk.injEq] at h
    obtain ⟨rfl, -⟩ := h
    simp [kindOf, hs, Statement.kind, found.kind_ne_functionBodyLine]
  | bodyLine text =>
    cases hc : m.isCollecting with
    | true => simp [hs, hc] at h
    | false =>
      simp only [hs, hc, Bool.false_eq_true, if_false, Option.some.injEq, Prod.mk.injEq] at h
      obtain ⟨rfl, -⟩ := h
      obtain ⟨hexecutable, -, rfl⟩ := Statement.ofLine_eq_bodyLine.mp hs
      have hdedented := Statement.ofLine_trim hexecutable
      simp [kindOf, hs, Statement.kind, hc, hdedented, Statement.ofText]

theorem execute_of_stored (hc : m.isCollecting = true)
    (h : Statement.ofLine config.marker line = .bodyLine text) :
    execute config line m = .ok (m.collect text) := by
  simp [execute, executeWith, h, hc]

/-- A line that is performed is not also stored: it leaves no line in the body of an open
definition. -/
theorem execute_ne_collect (hc : m.isCollecting = true)
    (h : performed? config.marker line m = some (shape, n)) (text : Text) :
    execute config line m ≠ .ok (m.collect text) := by
  intro hx
  obtain ⟨f, hf⟩ := Option.isSome_iff_exists.mp hc
  have hn : n.Unfilled := by
    intro g hg
    rw [(performed?_eq_some h).2.2] at hg
    cases hg
  rw [execute, executeWith_of_performed h] at hx
  have hbody := perform_unfilled hn hx { f with body := f.body ++ [text] } (by simp [collect, hf])
  simp at hbody

end Step

open Machine

/-- The records of a trace are those of the lines that are neither blank nor a comment, one for
each and in order. What a record gives as the kind of its line is how the line was executed:
either it was stored in the body of the open definition, or a statement of that kind was
performed. -/
theorem trace_covers_executable_lines {config : Config} {lines : List Text} {T : Trace}
    (h : Trace.ofLines config lines = .ok T) :
    (T.records.map fun r => r.lineNumber - 1) =
      (lines.findIdxs fun line => !isSkippable config.marker line).map Nat.cast ∧
    T.records.map StepRecord.index = (List.range T.records.length).map Nat.cast ∧
    (∀ r ∈ T.records, lines[(r.lineNumber - 1).toNat]? = some r.source) ∧
    (∃ stages last, Step.Stages config lines 0 0 .initial stages last ∧
      T.records = (stages.map fun s => s.step.record) ∧
      ∀ s ∈ stages,
        (s.step.record.kind = .functionBodyLine ↔ s.before.isCollecting = true ∧
          ∃ text, execute config s.step.record.source s.before = .ok (s.before.collect text)) ∧
        (s.step.record.kind ≠ .functionBodyLine → ∃ shape start,
          performed? config.marker s.step.record.source s.before = some (shape, start) ∧
          s.step.record.kind = shape.kind ∧
          execute config s.step.record.source s.before = perform (call config) shape start)) ∧
    T.stats.steps = T.records.length ∧ T.stats.sourceLines = lines.length ∧
    T.stats.steps + T.stats.skippedLines = T.stats.sourceLines ∧
    T.stats.outputLines = T.output.length := by
  obtain ⟨last, hrun, -, houtput, hstats⟩ := Trace.ofLines_eq_ok h
  obtain ⟨stages, end', hstages, hrecords, -, -⟩ := Trace.exists_stages h
  refine ⟨Run.walk_lineNumbers hrun, ?_, ?_, ⟨stages, end', hstages, hrecords, ?_⟩, ?_⟩
  · rw [List.range_eq_range']
    exact Run.walk_indices hrun
  · intro r hr
    rw [hrecords] at hr
    obtain ⟨s, hs, rfl⟩ := List.mem_map.mp hr
    obtain ⟨position, hat⟩ := hstages.exists_at s hs
    obtain ⟨-, hnumber, -, -⟩ := Step.visit_record hat.visit
    have hposition : (s.step.record.lineNumber - 1).toNat = position := by omega
    rw [hposition, hat.line]
  · intro s hs
    obtain ⟨position, hat⟩ := hstages.exists_at s hs
    obtain ⟨-, -, -, hkind⟩ := Step.visit_record hat.visit
    rw [hkind]
    rcases Step.stored_or_performed s.before hat.executable with ⟨hc, text, htext⟩ | ⟨shape, start, hp⟩
    · have hstored := Step.kindOf_of_stored hc htext
      exact ⟨iff_of_true hstored ⟨hc, text, Step.execute_of_stored hc htext⟩, absurd hstored⟩
    · have hperformed := Step.kindOf_of_performed hp
      refine ⟨iff_of_false ?_ ?_, fun _ => ⟨shape, start, hp, hperformed, executeWith_of_performed hp⟩⟩
      · rw [hperformed]
        exact shape.kind_ne_functionBodyLine
      · rintro ⟨hc, text, hx⟩
        exact Step.execute_ne_collect hc hp text hx
  · rw [hstats, houtput]
    have hlength := Run.walk_length hrun
    refine ⟨rfl, rfl, ?_, rfl⟩
    simp only [Stats.ofRun]
    omega

/-- A source in which one indented line is stored and another one is run. -/
def mixed : List Text :=
  ["// first".toList, "def f(a):".toList, "  // inside".toList, "    y = a".toList, [], "x = 1".toList,
    "  print(x)  // shown".toList]

theorem trace_covers_mixed : ∃ T, Trace.ofLines slashed mixed = .ok T ∧
    (T.records.map fun r => r.lineNumber - 1) = [1, 3, 5, 6] ∧
    T.records.map StepRecord.kind = [.functionHeader, .functionBodyLine, .assignment, .printCall] ∧
    T.stats.steps = 4 ∧ T.stats.skippedLines = 3 ∧ T.stats.outputLines = 1 := by
  have hT := Option.eq_some_of_isSome (o := (Trace.ofLines slashed mixed).toOption) (by decide +kernel)
  obtain ⟨hlines, -, -, -, hsteps, hsource, hskipped, houtput⟩ :=
    trace_covers_executable_lines (eq_ok_of_toOption hT)
  have hfour : ((Trace.ofLines slashed mixed).toOption.get (by decide +kernel)).stats.steps = 4 := by
    rw [hsteps]
    decide +kernel
  rw [hfour, hsource] at hskipped
  refine ⟨_, eq_ok_of_toOption hT, ?_, by decide +kernel, hfour, ?_, ?_⟩
  · rw [hlines]
    decide +kernel
  · exact Int.add_left_cancel (hskipped.trans (by decide))
  · rw [houtput]
    decide +kernel

end SnippetTutor
