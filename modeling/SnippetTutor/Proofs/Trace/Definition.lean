import SnippetTutor.Proofs.Machine.Collection
import SnippetTutor.Proofs.Trace.Coverage

/-! # Definitions in a trace

While a definition is collected, the records show the memory from before its header. The
function shows in the record of the step that completes the definition: the next line that is
not indented, or the last one of all.
That a source has a trace is said for a stack without bounds (`Fault`).
-/
namespace SnippetTutor
open Outcome Machine

namespace Trace
variable {config : Config} {lines before rest : List Text} {T : Trace} {m : Machine}
  {earlier later : List StepRecord} {r next : StepRecord}

theorem exists_executed (h : ofLines config lines = .ok T) : ∃ stages last,
    Step.Stages config lines 0 0 .initial stages last ∧
      T.records = (stages.map fun s => s.step.record) ∧
      ∀ s ∈ stages, ∃ position, s.At config lines position ∧
        s.step.record.lineNumber = position + 1 ∧
        executeAll config (lines.take position) .initial = .ok s.before := by
  obtain ⟨stages, last, hstages, hrecords, -, -⟩ := exists_stages h
  refine ⟨stages, last, hstages, hrecords, ?_⟩
  intro s hs
  obtain ⟨position, hat, hbefore⟩ := hstages.executed rfl s hs
  obtain ⟨-, hnumber, -, -⟩ := Step.visit_record hat.visit
  exact ⟨position, hat, hnumber, hbefore⟩

/-- Every record is that of a step, taken from the machine that the lines above have made. -/
theorem exists_stage_of_record (h : ofLines config lines = .ok T) (hr : r ∈ T.records) :
    ∃ (s : Stage) (position : Nat), s.step.record = r ∧ s.At config lines position ∧
      r.lineNumber = position + 1 ∧ executeAll config (lines.take position) .initial = .ok s.before := by
  obtain ⟨stages, last, -, hrecords, hexecuted⟩ := exists_executed h
  rw [hrecords] at hr
  obtain ⟨s, hs, rfl⟩ := List.mem_map.mp hr
  obtain ⟨position, hat, hnumber, hbefore⟩ := hexecuted s hs
  exact ⟨s, position, rfl, hat, hnumber, hbefore⟩

theorem line_of_record (h : ofLines config lines = .ok T) (hr : r ∈ T.records) :
    1 ≤ r.lineNumber ∧ lines[(r.lineNumber - 1).toNat]? = some r.source := by
  obtain ⟨s, position, rfl, hat, hnumber, -⟩ := exists_stage_of_record h hr
  have hposition : (s.step.record.lineNumber - 1).toNat = position := by omega
  rw [hposition]
  exact ⟨by omega, hat.line⟩

/-- The record before that of a line shows the memory that the lines above have made. -/
theorem lastMemory_eq (h : ofLines config (before ++ rest) = .ok T)
    (hm : executeAll config before .initial = .ok m) (hrecords : T.records = earlier ++ r :: later)
    (hr : r.lineNumber = before.length + 1) : StepRecord.lastMemory earlier = m.memory := by
  obtain ⟨stages, last, hstages, hstaged, hexecuted⟩ := exists_executed h
  rw [hrecords] at hstaged
  obtain ⟨first, more, rfl, rfl, hmore⟩ := List.map_eq_append_iff.mp hstaged.symm
  obtain ⟨s, others, rfl, rfl, -⟩ := List.map_eq_cons_iff.mp hmore
  obtain ⟨position, -, hnumber, hbefore⟩ := hexecuted s (by simp)
  have hposition : position = before.length := by omega
  rw [hposition, List.take_left, hm] at hbefore
  cases hbefore
  exact hstages.memory_before.symm

/-- A record that is not the last one shows the memory that the lines up to its own have made. -/
theorem exists_executeAll_of_record (h : ofLines config lines = .ok T) (hr : r ∈ T.records)
    (hnext : next ∈ T.records) (hlt : r.lineNumber < next.lineNumber) :
    ∃ n, executeAll config (lines.take r.lineNumber.toNat) .initial = .ok n ∧ r.memory = n.memory := by
  obtain ⟨s, position, rfl, hat, hnumber, hbefore⟩ := exists_stage_of_record h hr
  obtain ⟨s', position', rfl, hat', hnumber', -⟩ := exists_stage_of_record h hnext
  obtain ⟨ran, hran, -, hmemory, hmachine⟩ := Step.executeAll_of_at hat hbefore
  have hopen : Step.isLast config.marker (lines.drop (position + 1)) = false := by
    rw [Step.isLast, List.all_eq_false]
    refine ⟨s'.step.record.source, ?_, by simp [hat'.executable]⟩
    rw [List.mem_iff_getElem?]
    refine ⟨position' - (position + 1), ?_⟩
    rw [List.getElem?_drop, Nat.add_sub_cancel' (by omega)]
    exact hat'.line
  have hposition : s.step.record.lineNumber.toNat = position + 1 := by omega
  rw [hposition]
  refine ⟨ran, hran, ?_⟩
  rw [hmemory, hmachine, if_neg (by simp [hopen])]

end Trace

theorem executeAll_to_definition {config : Config} {m : Machine} {header name params text : Text}
    {before lines : List Text} (hbefore : executeAll config before .initial = .ok m) (htop : m.pending = none)
    (hheader : Statement.ofLine config.marker (Text.trim header) = .shaped text (.header name params))
    (hlines : Continues config.marker lines) :
    executeAll config (before ++ header :: lines) .initial =
      .ok (m.collecting (defined config.marker name params lines)) := by
  rw [executeAll_append, hbefore]
  exact executeAll_definition htop hheader hlines

/-- A definition at the top level is collected exactly and does not show before it is complete.
Its header and the skipped and indented lines after it change nothing but what is pending; the
next line that is not indented is executed as if the function had been bound before it, and a
source that ends instead ends in the memory with the function. In a trace, the records of these
lines show the memory from before the header, as long as a step is still to come. -/
theorem definition_invisible_until_complete {config : Config} {m : Machine} {header name params text : Text}
    {lines : List Text} (htop : m.pending = none)
    (hheader : Statement.ofLine config.marker (Text.trim header) = .shaped text (.header name params))
    (hlines : ∀ line ∈ lines, isSkippable config.marker line = true ∨ isIndented line = true) :
    executeAll config (header :: lines) m =
      .ok { m with pending := some (defined config.marker name params lines) } ∧
    (∀ line, isSkippable config.marker line = false → isIndented line = false →
      execute config line { m with pending := some (defined config.marker name params lines) } =
        execute config line (m.bind name (.function (defined config.marker name params lines)))) ∧
    ∀ before, executeAll config before .initial = .ok m →
      (∃ T, Trace.ofLines config (before ++ header :: lines) = .ok T ∧
        T.memory = m.memory.bind name (.function (defined config.marker name params lines)) ∧
        StepRecord.lastMemory T.records = T.memory) ∧
      ∀ after T, Trace.ofLines config (before ++ header :: lines ++ after) = .ok T →
        (∃ (earlier later : List StepRecord) (r : StepRecord), T.records = earlier ++ r :: later ∧
          r.lineNumber = before.length + 1 ∧ StepRecord.lastMemory earlier = m.memory) ∧
        ∀ r ∈ T.records, ∀ next ∈ T.records, before.length < r.lineNumber →
          r.lineNumber ≤ before.length + 1 + lines.length → r.lineNumber < next.lineNumber →
          r.memory = m.memory := by
  have hs := isSkippable_of_header hheader
  refine ⟨executeAll_definition htop hheader hlines, ?_, ?_⟩
  · intro line hline hi
    exact execute_after_collecting htop hline hi
  · intro before hbefore
    constructor
    · obtain ⟨T, hT, hmemory⟩ :=
        Trace.exists_of_executeAll (executeAll_to_definition hbefore htop hheader hlines)
      refine ⟨T, hT, ?_, (Trace.memory_eq_lastMemory hT).symm⟩
      have hopen : Step.isLast config.marker (before ++ header :: lines) = false := by
        simp [Step.isLast, hs]
      rw [hmemory, Run.finish, if_neg (by simp [hopen]), collecting_closeDefinition htop]
      rfl
    · intro after T hT
      rw [List.append_assoc] at hT
      constructor
      · have hline : (before ++ (header :: lines ++ after))[before.length]? = some header := by simp
        obtain ⟨r, hr, hnumber⟩ := Trace.exists_record hT hline hs
        obtain ⟨earlier, later, hrecords⟩ := List.append_of_mem hr
        exact ⟨earlier, later, r, hrecords, hnumber, Trace.lastMemory_eq hT hbefore hrecords hnumber⟩
      · intro r hr next hnext hlow hhigh hlt
        obtain ⟨n, hn, hmemory⟩ := Trace.exists_executeAll_of_record hT hr hnext hlt
        obtain ⟨k, hk⟩ : ∃ k : Nat, r.lineNumber.toNat = before.length + (k + 1) :=
          ⟨r.lineNumber.toNat - before.length - 1, by omega⟩
        -- up to this record, the source has the header and the first lines after it
        rw [hk, List.take_length_add_append, List.cons_append, List.take_succ_cons,
          List.take_append_of_le_length (by omega)] at hn
        have hfirst : Continues config.marker (lines.take k) :=
          fun line hline => hlines line (List.mem_of_mem_take hline)
        cases (executeAll_to_definition hbefore htop hheader hfirst).symm.trans hn
        exact hmemory

/-- The machine after one assignment. -/
def assigned : Machine := { memory := [("x".toList, .list [])] }

/-- Lines of a body, among them a blank one and a comment that is not indented. -/
def bodyLines : List Text :=
  [[], "// inside".toList, "    y = a // copied".toList, "  print(y)".toList]

/-- What these lines define under an indented header, which is a header at the top level. -/
def copying : Function := ⟨"f".toList, ["a".toList], ["y = a".toList, "print(y)".toList]⟩

theorem definition_invisible_until_complete_indented :
    executeAll slashed ("  def f(a):  // begins".toList :: bodyLines) assigned =
      .ok { assigned with pending := some copying } ∧
    execute slashed "f(x)".toList { assigned with pending := some copying } =
      execute slashed "f(x)".toList (assigned.bind "f".toList (.function copying)) ∧
    ∃ T, Trace.ofLines slashed
        (["x = []".toList] ++ "  def f(a):  // begins".toList :: bodyLines ++ ["f(x)".toList]) = .ok T ∧
      T.records.map StepRecord.lineNumber = [1, 2, 5, 6, 7] ∧
      ∀ r ∈ T.records, ∀ next ∈ T.records, 1 < r.lineNumber → r.lineNumber ≤ 6 →
        r.lineNumber < next.lineNumber → r.memory = assigned.memory := by
  have hheader : Statement.ofLine slashed.marker (Text.trim "  def f(a):  // begins".toList) =
      .shaped "def f(a):".toList (.header "f".toList "a".toList) := by decide +kernel
  have hlines : ∀ line ∈ bodyLines, isSkippable slashed.marker line = true ∨ isIndented line = true := by
    decide +kernel
  have hcopying : defined slashed.marker "f".toList "a".toList bodyLines = copying := by decide +kernel
  have hbefore : executeAll slashed ["x = []".toList] .initial = .ok assigned :=
    eq_ok_of_toOption (by decide +kernel)
  have hT := Option.eq_some_of_isSome (o := (Trace.ofLines slashed
    (["x = []".toList] ++ "  def f(a):  // begins".toList :: bodyLines ++ ["f(x)".toList])).toOption)
    (by decide +kernel)
  have htop : assigned.pending = none := rfl
  obtain ⟨hcollected, hnext, hrun⟩ := definition_invisible_until_complete htop hheader hlines
  rw [hcopying] at hcollected hnext
  obtain ⟨-, hshown⟩ := (hrun _ hbefore).2 _ _ (eq_ok_of_toOption hT)
  exact ⟨hcollected, hnext _ (by decide +kernel) (by decide +kernel), _, eq_ok_of_toOption hT,
    by decide +kernel, hshown⟩

end SnippetTutor
