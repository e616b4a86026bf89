import SnippetTutor.Proofs.Trace.Coverage

/-! # Sources that go on

Lines that are added below a source find what the source has made. The records of the source
stay as they are, but for what its last step does because nothing comes after it: it completes
a definition that is still open, and with more lines below it does not.
-/
namespace SnippetTutor
open Outcome Machine

namespace StepRecord

/-- The same records, of which the last one shows another memory. -/
def endingIn (memory : Memory) : List StepRecord → List StepRecord
  | [] => []
  | [r] => [{ r with memory := memory }]
  | r :: next :: rest => r :: endingIn memory (next :: rest)

variable {memory : Memory} {r : StepRecord} {records : List StepRecord}

theorem endingIn_cons (h : records ≠ []) : endingIn memory (r :: records) = r :: endingIn memory records := by
  cases records with
  | nil => exact absurd rfl h
  | cons next rest => rfl

theorem endingIn_concat (records : List StepRecord) (r : StepRecord) :
    endingIn memory (records ++ [r]) = records ++ [{ r with memory := memory }] := by
  induction records with
  | nil => rfl
  | cons first rest ih =>
    have hne : rest ++ [r] ≠ [] := by simp
    rw [List.cons_append, endingIn_cons hne, ih, List.cons_append]

theorem length_endingIn (memory : Memory) (records : List StepRecord) :
    (endingIn memory records).length = records.length := by
  rcases List.eq_nil_or_concat records with rfl | ⟨rest, r, rfl⟩
  · rfl
  · rw [List.concat_eq_append, endingIn_concat]
    simp

theorem take_endingIn (memory : Memory) (records : List StepRecord) :
    (endingIn memory records).take (records.length - 1) = records.take (records.length - 1) := by
  rcases List.eq_nil_or_concat records with rfl | ⟨rest, r, rfl⟩
  · rfl
  · rw [List.concat_eq_append, endingIn_concat]
    simp

theorem endingIn_of_shown (h : ∀ r, records.getLast? = some r → r.memory = memory) :
    endingIn memory records = records := by
  rcases List.eq_nil_or_concat records with rfl | ⟨rest, r, rfl⟩
  · rfl
  · have hr := h r (by simp)
    subst hr
    rw [List.concat_eq_append, endingIn_concat]

theorem getElem?_endingIn (h : records.getLast? = some r) :
    (endingIn memory records)[records.length - 1]? = some { r with memory := memory } := by
  obtain ⟨rest, rfl⟩ := List.getLast?_eq_some_iff.mp h
  rw [endingIn_concat]
  simp

end StepRecord

namespace Step

variable {config : Config} {marker line : Text} {first later later' : List Text} {index : Int} {position : Nat}
  {m ran : Machine} {step : Step}

theorem isLast_append : isLast marker (first ++ later) = (isLast marker first && isLast marker later) :=
  List.all_append

theorem visit_congr (h : isLast config.marker later' = isLast config.marker later) :
    visit config index position line later' m = visit config index position line later m := by
  simp only [visit, h]

theorem exists_visit (hran : execute config line m = .ok ran) (index : Int) (position : Nat) (later : List Text) :
    ∃ step, visit config index position line later m = .ok step ∧
      step.machine = if isLast config.marker later then ran.closeDefinition else ran :=
  ⟨_, bind_eq_ok.mpr ⟨ran, hran, rfl⟩, rfl⟩

/-- A step that is not the last one leaves the definition open that it would complete as the
last one. In all else it is the same step. -/
theorem exists_visit_of_more (hran : execute config line m = .ok ran)
    (hlast : isLast config.marker later = true) (hmore : isLast config.marker later' = false)
    (index : Int) (position : Nat) :
    ∃ step, visit config index position line later m = .ok step ∧
      visit config index position line later' m =
        .ok { step with record := { step.record with memory := ran.memory }, machine := ran } := by
  refine ⟨_, bind_eq_ok.mpr ⟨ran, hran, rfl⟩, bind_eq_ok.mpr ⟨ran, hran, ?_⟩⟩
  simp [hlast, hmore]

end Step

namespace Run

variable {config : Config} {line : Text} {lines later : List Text} {position count : Nat} {m n : Machine}

/-- A run after the steps of which some records are. -/
def after (records : List StepRecord) (r : Run) : Run := ⟨records ++ r.records, r.ending⟩

theorem records_ne_nil (h : Step.isLast config.marker lines = false) (hn : executeAll config lines m = .ok n)
    (position count : Nat) :
    (walk config position count m lines).records ≠ [] := by
  induction lines generalizing position with
  | nil => cases h
  | cons line rest ih =>
    rw [executeAll_cons] at hn
    obtain ⟨ran, hran, hrest⟩ := bind_eq_ok.mp hn
    cases hs : isSkippable config.marker line with
    | true =>
      rw [walk_of_skippable hs]
      rw [execute_of_skippable hs] at hran
      cases hran
      refine ih ?_ hrest (position + 1)
      simpa [Step.isLast, hs] using h
    | false =>
      obtain ⟨step, hv, -⟩ := Step.exists_visit hran count position rest
      rw [walk_of_visit hs hv]
      exact List.cons_ne_nil _ _

theorem walk_append_of_isLast (h : Step.isLast config.marker later = true) :
    walk config position count m (lines ++ later) = walk config position count m lines := by
  induction lines generalizing position count m with
  | nil => exact walk_of_isLast h
  | cons line rest ih =>
    cases hs : isSkippable config.marker line with
    | true =>
      rw [List.cons_append, walk_of_skippable hs, walk_of_skippable hs, ih]
    | false =>
      have hrest : Step.isLast config.marker (rest ++ later) = Step.isLast config.marker rest := by
        rw [Step.isLast_append, h, Bool.and_true]
      have hvisit : Step.visit config count position line (rest ++ later) m =
          Step.visit config count position line rest m := Step.visit_congr hrest
      rw [List.cons_append]
      cases hv : Step.visit config count position line rest m with
      | error fault => rw [walk_of_fault hs hv, walk_of_fault hs (hvisit.trans hv)]
      | ok step => rw [walk_of_visit hs hv, walk_of_visit hs (hvisit.trans hv), ih]

/-- The run over more lines takes the steps of the first ones, of which the last leaves open
what it finds open, and goes on from the machine that these lines have made. -/
theorem walk_append (hlater : Step.isLast config.marker later = false) (hn : executeAll config lines m = .ok n)
    (position count : Nat) :
    walk config position count m (lines ++ later) =
      (walk config (position + lines.length) (count + (walk config position count m lines).records.length) n
        later).after (StepRecord.endingIn n.memory (walk config position count m lines).records) := by
  induction lines generalizing position count m with
  | nil =>
    cases hn
    rfl
  | cons line rest ih =>
    rw [executeAll_cons] at hn
    obtain ⟨ran, hran, hrest⟩ := bind_eq_ok.mp hn
    have hposition : position + (line :: rest).length = position + 1 + rest.length := by
      rw [List.length_cons]
      omega
    rw [hposition, List.cons_append]
    cases hs : isSkippable config.marker line with
    | true =>
      rw [execute_of_skippable hs] at hran
      cases hran
      rw [walk_of_skippable hs, walk_of_skippable hs]
      exact ih hrest (position + 1) count
    | false =>
      have hnext := ih hrest (position + 1) (count + 1)
      have hmore : Step.isLast config.marker (rest ++ later) = false := by
        rw [Step.isLast_append, hlater, Bool.and_false]
      cases hlast : Step.isLast config.marker rest with
      | true =>
        -- only skipped lines stand between this line and the next one that is executed
        obtain ⟨step, hv, hv'⟩ := Step.exists_visit_of_more hran hlast hmore count position
        have hrecords : (walk config position count m (line :: rest)).records = [step.record] := by
          rw [walk_of_visit hs hv, walk_of_isLast hlast]
          rfl
        rw [executeAll_of_skippable hlast] at hrest
        cases hrest
        rw [walk_of_isLast hlast] at hnext
        rw [walk_of_visit hs hv', hnext, hrecords]
        rfl
      | false =>
        obtain ⟨step, hv, hmachine⟩ := Step.exists_visit hran count position rest
        rw [hlast, if_neg Bool.false_ne_true] at hmachine
        have hv' : Step.visit config count position line (rest ++ later) m = .ok step := by
          rw [Step.visit_congr (hmore.trans hlast.symm), hv]
        have hne := records_ne_nil hlast hrest (position + 1) (count + 1)
        have hrecords : (walk config position count m (line :: rest)).records =
            step.record :: (walk config (position + 1) (count + 1) ran rest).records := by
          rw [walk_of_visit hs hv, hmachine]
          rfl
        have hcount : count + (walk config position count m (line :: rest)).records.length =
            count + 1 + (walk config (position + 1) (count + 1) ran rest).records.length := by
          rw [hrecords, List.length_cons]
          omega
        rw [walk_of_visit hs hv', hcount, hrecords, StepRecord.endingIn_cons hne, hmachine, hnext]
        rfl

end Run

namespace Trace

variable {config : Config} {lines more : List Text} {T U : Trace} {m : Machine} {t : StepRecord}

/-- The output of a run is what its lines print, one executed after another. -/
theorem exists_executeAll (h : ofLines config lines = .ok T) :
    ∃ m, executeAll config lines .initial = .ok m ∧ T.output = m.output ∧
      T.memory = (Run.finish config.marker lines m).memory := by
  obtain ⟨last, hrun, hmemory, houtput, -⟩ := ofLines_eq_ok h
  have hending := Run.walk_ending config lines 0 0 .initial
  rw [← Run.ofLines, hrun] at hending
  obtain ⟨m, hm, rfl⟩ := map_eq_ok.mp hending.symm
  refine ⟨m, hm, ?_, hmemory⟩
  rw [houtput, Run.finish_output]

/-- The last record shows what the lines have made, with every definition completed. -/
theorem memory_of_getLast? (h : ofLines config lines = .ok T) (hm : executeAll config lines .initial = .ok m)
    (ht : T.records.getLast? = some t) : t.memory = m.closeDefinition.memory := by
  have hopen : Step.isLast config.marker lines = false := by
    by_contra hskipped
    obtain ⟨last, hrun, -⟩ := ofLines_eq_ok h
    rw [Run.ofLines, Run.walk_of_isLast (by simpa using hskipped), Run.mk.injEq] at hrun
    rw [← hrun.1] at ht
    cases ht
  obtain ⟨n, hn, -, hmemory⟩ := exists_executeAll h
  cases hm.symm.trans hn
  have hfinal := memory_eq_lastMemory h
  rw [StepRecord.lastMemory, ht, hmemory, Run.finish, hopen] at hfinal
  exact hfinal.symm

/-- With more lines below, the last record shows an open definition as completed only if none
of these lines is executed. -/
theorem exists_records_append (hT : ofLines config lines = .ok T) (hU : ofLines config (lines ++ more) = .ok U)
    (hm : executeAll config lines .initial = .ok m) :
    ∃ shown rest, U.records = StepRecord.endingIn shown T.records ++ rest ∧
      shown = if Step.isLast config.marker more then m.closeDefinition.memory else m.memory := by
  obtain ⟨last, hrun, -⟩ := ofLines_eq_ok hT
  obtain ⟨last', hrun', -⟩ := ofLines_eq_ok hU
  cases hmore : Step.isLast config.marker more with
  | true =>
    rw [Run.ofLines, Run.walk_append_of_isLast hmore, ← Run.ofLines, hrun, Run.mk.injEq] at hrun'
    have hsame := StepRecord.endingIn_of_shown fun r hr => memory_of_getLast? hT hm hr
    refine ⟨m.closeDefinition.memory, [], ?_, by simp⟩
    rw [hsame, List.append_nil, hrun'.1]
  | false =>
    have happend := Run.walk_append hmore hm 0 0
    rw [← Run.ofLines, ← Run.ofLines, hrun, hrun'] at happend
    exact ⟨m.memory, _, congrArg Run.records happend, by simp⟩

end Trace

/-- What has been shown of a source does not change when lines are added below it. With them
the run has at least the records of the source, and it prints what the source prints before
anything else. The records are the same, except that the last one of a source that ends inside
a definition shows the function as bound, which it does not show if more is executed below. -/
theorem lines_below_keep_records {config : Config} {lines more : List Text} {T U : Trace}
    (hT : Trace.ofLines config lines = .ok T) (hU : Trace.ofLines config (lines ++ more) = .ok U) :
    ∃ m, executeAll config lines .initial = .ok m ∧
      T.records.length ≤ U.records.length ∧ T.output <+: U.output ∧
      U.records.take (T.records.length - 1) = T.records.take (T.records.length - 1) ∧
      ∀ t, T.records.getLast? = some t → ∃ u, U.records[T.records.length - 1]? = some u ∧
        u = { t with memory := u.memory } ∧
        (m.pending = none ∨ Step.isLast config.marker more = true → u = t) ∧
        ∀ f, m.pending = some f → Step.isLast config.marker more = false →
          t.memory = u.memory.bind f.name (.function f) := by
  obtain ⟨m, hm, houtput, -⟩ := Trace.exists_executeAll hT
  obtain ⟨n, hn, houtput', -⟩ := Trace.exists_executeAll hU
  obtain ⟨shown, rest, hrecords, hshown⟩ := Trace.exists_records_append hT hU hm
  rw [executeAll_append, hm] at hn
  have hextends := (respected_extends config.scope).executeAll hn
  have hlength := StepRecord.length_endingIn shown T.records
  refine ⟨m, hm, ?_, ?_, ?_, ?_⟩
  · rw [hrecords, List.length_append, hlength]
    exact Nat.le_add_right _ _
  · rw [houtput, houtput']
    exact hextends.output
  · rw [hrecords, List.take_append_of_le_length (by omega), StepRecord.take_endingIn]
  · intro t ht
    have hmemory := Trace.memory_of_getLast? hT hm ht
    have hpos : 0 < T.records.length := List.length_pos_of_mem (List.mem_of_getLast? ht)
    refine ⟨{ t with memory := shown }, ?_, rfl, ?_, ?_⟩
    · rw [hrecords, List.getElem?_append_left (by omega), StepRecord.getElem?_endingIn ht]
    · intro hsame
      have hclosed : shown = m.closeDefinition.memory := by
        rcases hsame with htop | hskipped
        · have hclosed : m.closeDefinition = m := by simp [closeDefinition, htop]
          rw [hshown, hclosed, ite_self]
        · rw [hshown, if_pos hskipped]
      rw [hclosed, ← hmemory]
    · intro f hf hopen
      have hclosed : m.closeDefinition = { m.bind f.name (.function f) with pending := none } := by
        simp [closeDefinition, hf]
      rw [hmemory, hclosed, hshown, if_neg (by simp [hopen])]
      rfl

/-- A source that ends inside a definition. -/
def opening : List Text := ["y = 2".toList, "print(y)".toList, "def g(a):".toList, "  print(a)".toList]

/-- The body that these lines have collected so far. -/
def collected : Function := ⟨"g".toList, ["a".toList], ["print(a)".toList]⟩

/-- More of the body and a call. -/
def closing : List Text := ["# more".toList, "  print(y)".toList, "g('b')".toList]

theorem lines_below_keep_records_opening : ∃ T U t u, Trace.ofLines {} opening = .ok T ∧
    Trace.ofLines {} (opening ++ closing) = .ok U ∧
    T.records.length = 4 ∧ U.records.take 3 = T.records.take 3 ∧
    T.output = ["2".toList] ∧ T.output <+: U.output ∧
    T.records.getLast? = some t ∧ U.records[3]? = some u ∧ Fields.keys t.memory = ["y".toList, "g".toList] ∧
    t.memory = u.memory.bind "g".toList (.function collected) := by
  have hT := Option.eq_some_of_isSome (o := (Trace.ofLines {} opening).toOption) (by decide +kernel)
  have hU := Option.eq_some_of_isSome (o := (Trace.ofLines {} (opening ++ closing)).toOption) (by decide +kernel)
  obtain ⟨m, hm, -, houtput, htake, hlast⟩ :=
    lines_below_keep_records (eq_ok_of_toOption hT) (eq_ok_of_toOption hU)
  have hlength : ((Trace.ofLines {} opening).toOption.get (by decide +kernel)).records.length = 4 := by
    decide +kernel
  have ht := Option.eq_some_of_isSome
    (o := ((Trace.ofLines {} opening).toOption.get (by decide +kernel)).records.getLast?) (by decide +kernel)
  have hpending : m.pending = some collected := by
    have hends : (executeAll {} opening .initial).toOption.map Machine.pending = some (some collected) := by
      decide +kernel
    rw [hm] at hends
    exact Option.some.inj hends
  obtain ⟨u, hu, -, -, hbound⟩ := hlast _ ht
  rw [hlength] at htake hu
  exact ⟨_, _, _, u, eq_ok_of_toOption hT, eq_ok_of_toOption hU, hlength, htake, by decide +kernel, houtput, ht,
    hu, by decide +kernel, hbound collected hpending (by decide +kernel)⟩

end SnippetTutor
