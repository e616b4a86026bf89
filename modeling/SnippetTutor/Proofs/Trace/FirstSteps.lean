import SnippetTutor.Proofs.Trace.Continuation

/-! # The first steps of a run

A limited number of steps comes of taking one after another until there are enough of them or none
is left. It is the whole run, cut after that many records: a fault counts only where a step is still
wanted, and the lines after the last step decide nothing but whether it is the last of all.
That steps have records is said for a stack without bounds (`Fault`).
-/
namespace SnippetTutor
open Outcome Machine

namespace Run

/-- The first `count` records. A fault counts only if it comes before that many steps. -/
def firstRecords (r : Run) (count : Int) : Except Fault (List StepRecord) :=
  if count ≤ r.records.length then .ok (r.records.take count.toNat)
  else r.ending.map fun _ => r.records

variable {config : Config} {lines first rest rest' : List Text} {position count : Nat} {m : Machine}
  {r : Run} {record : StepRecord} {wanted : Int}

theorem firstRecords_of_nonpos (h : wanted ≤ 0) : r.firstRecords wanted = .ok [] := by
  rw [firstRecords, if_pos (by omega), Int.toNat_of_nonpos h, List.take_zero]

theorem firstRecords_toNat (r : Run) (wanted : Int) :
    r.firstRecords wanted = r.firstRecords (wanted.toNat : Int) := by
  by_cases h : wanted ≤ 0
  · rw [firstRecords_of_nonpos h, Int.toNat_of_nonpos h, firstRecords_of_nonpos (by simp)]
  · rw [Int.toNat_of_nonneg (by omega)]

theorem firstRecords_of_pos (h : 0 < wanted) :
    (r.prepend record).firstRecords wanted = (r.firstRecords (wanted - 1)).map (record :: ·) := by
  have hlength : (r.prepend record).records.length = r.records.length + 1 := rfl
  have htake : wanted.toNat = (wanted - 1).toNat + 1 := by omega
  rw [firstRecords, firstRecords]
  by_cases hcut : wanted - 1 ≤ r.records.length
  · rw [if_pos (by omega), if_pos hcut, htake, prepend, List.take_succ_cons]
    rfl
  · rw [if_neg (by omega), if_neg hcut, prepend]
    cases r.ending <;> rfl

/-- Lines after the wanted steps matter only as far as one of them is executed. -/
theorem firstRecords_walk_append (hlast : Step.isLast config.marker rest' = Step.isLast config.marker rest)
    (h : wanted ≤ Step.countExecutable config.marker first) :
    (walk config position count m (first ++ rest')).firstRecords wanted =
      (walk config position count m (first ++ rest)).firstRecords wanted := by
  induction first generalizing position count m wanted with
  | nil =>
    have hnone : wanted ≤ 0 := h
    rw [firstRecords_of_nonpos hnone, firstRecords_of_nonpos hnone]
  | cons line later ih =>
    rw [List.cons_append, List.cons_append]
    cases hs : isSkippable config.marker line with
    | true =>
      rw [Step.countExecutable_cons, if_pos hs, Nat.add_zero] at h
      rw [walk_of_skippable hs, walk_of_skippable hs]
      exact ih h
    | false =>
      rw [Step.countExecutable_cons, if_neg (by simp [hs])] at h
      by_cases hpos : 0 < wanted
      · have hlater : Step.isLast config.marker (later ++ rest') = Step.isLast config.marker (later ++ rest) := by
          rw [Step.isLast_append, Step.isLast_append, hlast]
        have hvisit : Step.visit config count position line (later ++ rest') m =
            Step.visit config count position line (later ++ rest) m := Step.visit_congr hlater
        cases hv : Step.visit config count position line (later ++ rest) m with
        | error fault => rw [walk_of_fault hs hv, walk_of_fault hs (hvisit.trans hv)]
        | ok step =>
          rw [walk_of_visit hs hv, walk_of_visit hs (hvisit.trans hv), firstRecords_of_pos hpos,
            firstRecords_of_pos hpos]
          congr 1
          exact ih (by omega)
      · rw [firstRecords_of_nonpos (by omega), firstRecords_of_nonpos (by omega)]

end Run

namespace Step

variable {config : Config} {lines : List Text} {index count stop : Nat} {m last : Machine}
  {stages : List Stage} {fault : Fault} {wanted : Int}

/-- The steps that are taken are those of the run from there, cut after as many as are wanted. -/
theorem takeUpTo_eq (config : Config) (lines : List Text) (wanted index : Nat) (m : Machine)
    (records : List StepRecord) : takeUpTo config lines wanted index m records =
      ((Run.walk config index records.length m (lines.drop index)).firstRecords wanted).map (records ++ ·) := by
  induction wanted generalizing index m records with
  | zero =>
    have hnone : ((0 : Nat) : Int) ≤ 0 := Int.le_refl 0
    rw [Run.firstRecords_of_nonpos hnone, takeUpTo, map_ok, List.append_nil]
  | succ wanted ih =>
    rw [Run.walk_eq_take?, takeUpTo]
    cases ht : take? config lines index m records.length with
    | error fault => rfl
    | ok found =>
      cases found with
      | none => exact congrArg Except.ok (List.append_nil records).symm
      | some step =>
        have hlength : records.length + 1 = (records ++ [step.record]).length := by simp
        have hwanted : ((wanted + 1 : Nat) : Int) - 1 = wanted := by omega
        simp only [Bind.bind, Except.bind]
        rw [Run.firstRecords_of_pos (by omega), hwanted, ih, hlength]
        cases (Run.walk config step.next _ step.machine (lines.drop step.next)).firstRecords wanted with
        | error fault => rfl
        | ok rest => simp [Except.map]

theorem Takes.countExecutable_drop (h : Takes config lines index count m stages stop last) :
    countExecutable config.marker (lines.drop index) =
      stages.length + countExecutable config.marker (lines.drop stop) := by
  induction h with
  | none => rw [List.length_nil, Nat.zero_add]
  | next ht _ ih =>
    obtain ⟨position, line, later, hnext, -, hv⟩ := exists_visit_of_take? ht
    obtain ⟨ran, -, hstep, -⟩ := visit_eq_ok hv
    rw [Step.countExecutable_drop hnext, ← hstep, ih, List.length_cons]
    omega

/-- The steps that are taken are the first ones of the run, and it goes on from where they lead. -/
theorem Takes.firstRecords (h : Takes config lines index count m stages stop last)
    (hwanted : (stages.length : Int) ≤ wanted) :
    (Run.walk config index count m (lines.drop index)).firstRecords wanted =
      ((Run.walk config stop (count + stages.length) last (lines.drop stop)).firstRecords
        (wanted - stages.length)).map ((stages.map fun s => s.step.record) ++ ·) := by
  induction h generalizing wanted with
  | @none index count m =>
    have hsame : wanted - ([] : List Stage).length = wanted := Int.sub_zero wanted
    rw [hsame, List.length_nil, Nat.add_zero]
    cases (Run.walk config index count m (lines.drop index)).firstRecords wanted <;> rfl
  | @next index count stop m last step stages ht _ ih =>
    rw [List.length_cons] at hwanted
    have hcount : count + (Stage.mk m step :: stages).length = count + 1 + stages.length := by
      rw [List.length_cons]
      omega
    have hrest : wanted - (Stage.mk m step :: stages).length = wanted - 1 - stages.length := by
      rw [List.length_cons]
      omega
    rw [Run.walk_eq_take?, ht]
    simp only
    rw [Run.firstRecords_of_pos (by omega), ih (by omega), hcount, hrest]
    cases (Run.walk config stop (count + 1 + stages.length) last (lines.drop stop)).firstRecords
      (wanted - 1 - stages.length) <;> rfl

theorem Takes.firstRecords_of_enough (h : Takes config lines index count m stages stop last)
    (hwanted : (stages.length : Int) = wanted) :
    (Run.walk config index count m (lines.drop index)).firstRecords wanted =
      .ok (stages.map fun s => s.step.record) := by
  rw [h.firstRecords (by omega), Run.firstRecords_of_nonpos (by omega), map_ok, List.append_nil]

theorem Takes.firstRecords_of_end (h : Takes config lines index count m stages stop last)
    (hwanted : (stages.length : Int) ≤ wanted)
    (hend : countExecutable config.marker (lines.drop stop) = 0) :
    (Run.walk config index count m (lines.drop index)).firstRecords wanted =
      .ok (stages.map fun s => s.step.record) := by
  have hrest : ∀ more, (Run.mk [] (.ok last)).firstRecords more = .ok [] := by
    intro more
    rw [Run.firstRecords, List.take_nil]
    exact ite_self _
  rw [h.firstRecords hwanted, Run.walk_of_isLast (countExecutable_eq_zero.mp hend), hrest, map_ok,
    List.append_nil]

theorem Takes.firstRecords_of_fault (h : Takes config lines index count m stages stop last)
    (hwanted : (stages.length : Int) < wanted)
    (hfault : take? config lines stop last (count + stages.length : Nat) = .error fault) :
    (Run.walk config index count m (lines.drop index)).firstRecords wanted = .error fault := by
  rw [h.firstRecords (by omega), Run.walk_eq_take?, hfault]
  simp only
  rw [Run.firstRecords, if_neg (by simp; omega)]
  rfl

/-- Steps can be taken until there are enough of them, unless none is left before or one cannot
be taken. -/
theorem exists_takes (config : Config) (lines : List Text) (wanted index count : Nat) (m : Machine) :
    ∃ stages stop last, Takes config lines index count m stages stop last ∧
      (stages.length = wanted ∨ stages.length < wanted ∧
        (countExecutable config.marker (lines.drop stop) = 0 ∨
          ∃ fault, take? config lines stop last (count + stages.length : Nat) = .error fault)) := by
  induction wanted generalizing index count m with
  | zero => exact ⟨[], index, m, .none, Or.inl rfl⟩
  | succ wanted ih =>
    cases ht : take? config lines index m count with
    | error fault => exact ⟨[], index, m, .none, Or.inr ⟨Nat.succ_pos _, Or.inr ⟨fault, ht⟩⟩⟩
    | ok found =>
      cases found with
      | none =>
        have hend := nextExecutable?_eq_none.mp (nextExecutable?_of_take?_none ht)
        exact ⟨[], index, m, .none, Or.inr ⟨Nat.succ_pos _, Or.inl hend⟩⟩
      | some step =>
        obtain ⟨stages, stop, last, htakes, hcases⟩ := ih step.next (count + 1) step.machine
        have hcount : count + (Stage.mk m step :: stages).length = count + 1 + stages.length := by
          rw [List.length_cons]
          omega
        refine ⟨_, stop, last, .next ht htakes, ?_⟩
        rw [hcount, List.length_cons]
        rcases hcases with henough | ⟨hless, hstopped⟩
        · exact Or.inl (by omega)
        · exact Or.inr ⟨by omega, hstopped⟩

end Step

section FirstSteps
open Step

variable {config : Config} {source source' : Text} {first rest rest' : List Text} {wanted : Int}
  {records : List StepRecord} {stages : List Stage} {stop : Nat} {last : Machine} {fault : Fault} {T : Trace}

/-- Taking steps until there are enough gives what the whole run records first. -/
theorem firstSteps_eq_firstRecords (config : Config) (source : Text) (wanted : Int) :
    firstSteps config source wanted = (Run.ofLines config (Text.lines source)).firstRecords wanted := by
  unfold firstSteps
  split
  · next hnone => rw [Run.firstRecords_of_nonpos hnone]
  · rw [takeUpTo_eq, Run.firstRecords_toNat (Run.ofLines config (Text.lines source)), Run.ofLines, List.length_nil,
      List.drop_zero]
    cases (Run.walk config 0 0 .initial (Text.lines source)).firstRecords wanted.toNat <;> rfl

theorem firstSteps_eq_walk (config : Config) (source : Text) (wanted : Int) :
    firstSteps config source wanted =
      (Run.walk config 0 0 .initial ((Text.lines source).drop 0)).firstRecords wanted.toNat := by
  rw [firstSteps_eq_firstRecords, Run.ofLines, Run.firstRecords_toNat, List.drop_zero]

theorem firstSteps_of_takes (h : Takes config (Text.lines source) 0 0 .initial stages stop last)
    (hlength : stages.length = min wanted.toNat (countExecutable config.marker (Text.lines source))) :
    firstSteps config source wanted = .ok (stages.map fun s => s.step.record) := by
  have hcount := h.countExecutable_drop
  rw [List.drop_zero] at hcount
  rw [firstSteps_eq_walk]
  by_cases henough : stages.length = wanted.toNat
  · exact h.firstRecords_of_enough (by omega)
  · exact h.firstRecords_of_end (by omega) (by omega)

theorem firstSteps_of_fault (h : Takes config (Text.lines source) 0 0 .initial stages stop last) (hless : stages.length < wanted.toNat)
    (hfault : take? config (Text.lines source) stop last stages.length = .error fault) :
    firstSteps config source wanted = .error fault := by
  rw [← Nat.zero_add stages.length] at hfault
  rw [firstSteps_eq_walk]
  exact h.firstRecords_of_fault (by omega) hfault

/-- Either as many steps are taken as are wanted or as there are, or one of the wanted steps cannot
be taken. -/
theorem exists_takes_firstSteps (config : Config) (source : Text) (wanted : Int) :
    ∃ stages stop last, Takes config (Text.lines source) 0 0 .initial stages stop last ∧
      (stages.length = min wanted.toNat (countExecutable config.marker (Text.lines source)) ∨
        stages.length < wanted.toNat ∧
          ∃ fault, take? config (Text.lines source) stop last stages.length = .error fault) := by
  obtain ⟨stages, stop, last, htakes, hcases⟩ := exists_takes config (Text.lines source) wanted.toNat 0 0 .initial
  have hcount := htakes.countExecutable_drop
  rw [List.drop_zero] at hcount
  rw [Nat.zero_add] at hcases
  refine ⟨stages, stop, last, htakes, ?_⟩
  rcases hcases with henough | ⟨hless, hend | hfault⟩
  · exact Or.inl (by omega)
  · exact Or.inl (by omega)
  · exact Or.inr ⟨hless, hfault⟩

theorem firstSteps_eq_ok_iff : firstSteps config source wanted = .ok records ↔
    ∃ stages stop last, Takes config (Text.lines source) 0 0 .initial stages stop last ∧
      stages.length = min wanted.toNat (countExecutable config.marker (Text.lines source)) ∧
      records = stages.map fun s => s.step.record := by
  constructor
  · intro h
    obtain ⟨stages, stop, last, htakes, hlength | ⟨hless, fault, hfault⟩⟩ :=
      exists_takes_firstSteps config source wanted
    · rw [firstSteps_of_takes htakes hlength] at h
      exact ⟨stages, stop, last, htakes, hlength, (Except.ok.inj h).symm⟩
    · rw [firstSteps_of_fault htakes hless hfault] at h
      cases h
  · rintro ⟨stages, stop, last, htakes, hlength, rfl⟩
    exact firstSteps_of_takes htakes hlength

theorem firstSteps_eq_error_iff : firstSteps config source wanted = .error fault ↔
    ∃ stages stop last, Takes config (Text.lines source) 0 0 .initial stages stop last ∧
      stages.length < wanted.toNat ∧
      take? config (Text.lines source) stop last stages.length = .error fault := by
  constructor
  · intro h
    obtain ⟨stages, stop, last, htakes, hlength | ⟨hless, found, hfault⟩⟩ :=
      exists_takes_firstSteps config source wanted
    · rw [firstSteps_of_takes htakes hlength] at h
      cases h
    · rw [firstSteps_of_fault htakes hless hfault] at h
      rw [Except.error.inj h] at hfault
      exact ⟨stages, stop, last, htakes, hless, hfault⟩
  · rintro ⟨stages, stop, last, htakes, hless, hfault⟩
    exact firstSteps_of_fault htakes hless hfault

theorem firstSteps_of_trace (h : Trace.ofSource config source = .ok T) :
    firstSteps config source wanted = .ok (T.records.take wanted.toNat) := by
  obtain ⟨last, hrun, -⟩ := Trace.ofSource_eq_ok h
  rw [firstSteps_eq_firstRecords, hrun, Run.firstRecords]
  split
  · rfl
  · next hmore =>
    have hmore : ¬ wanted ≤ T.records.length := hmore
    rw [map_ok, List.take_of_length_le (by omega)]

theorem firstSteps_congr (hsource : Text.lines source = first ++ rest)
    (hsource' : Text.lines source' = first ++ rest')
    (hlast : isLast config.marker rest' = isLast config.marker rest)
    (hwanted : wanted ≤ countExecutable config.marker first) :
    firstSteps config source' wanted = firstSteps config source wanted := by
  rw [firstSteps_eq_firstRecords, firstSteps_eq_firstRecords, hsource, hsource']
  exact Run.firstRecords_walk_append hlast hwanted

/-- Each of the first records shows what the lines up to its own have made. -/
theorem exists_executeAll_of_firstSteps (h : firstSteps config source wanted = .ok records) {r : StepRecord}
    (hr : r ∈ records) : ∃ (position : Nat) (ran : Machine), r.lineNumber = position + 1 ∧
      executeAll config ((Text.lines source).take (position + 1)) .initial = .ok ran ∧
      r.memory = (if isLast config.marker ((Text.lines source).drop (position + 1)) then ran.closeDefinition
        else ran).memory := by
  obtain ⟨stages, stop, last, htakes, -, rfl⟩ := firstSteps_eq_ok_iff.mp h
  obtain ⟨s, hs, rfl⟩ := List.mem_map.mp hr
  obtain ⟨position, hat, hbefore⟩ := htakes.executed rfl s hs
  obtain ⟨-, hnumber, -, -⟩ := visit_record hat.visit
  obtain ⟨ran, hran, -, hmemory, hmachine⟩ := executeAll_of_at hat hbefore
  rw [hmachine] at hmemory
  exact ⟨position, ran, hnumber, hran, hmemory⟩

end FirstSteps

/-- The first steps of a source are those that come of taking one step after another, as many as
are wanted or as there are, and a fault is met only where another step is still wanted. They are
the first ones of the trace, if there is one; but what stands after them may be anything at all,
as long as it is the same whether another line is executed. Each record shows what the lines up
to its own have made, with an open definition completed by the last of all steps only. -/
theorem first_steps_run_nothing_more (config : Config) (source : Text) (wanted : Int) :
    (∀ records, firstSteps config source wanted = .ok records ↔
      ∃ stages stop last, Step.Takes config (Text.lines source) 0 0 .initial stages stop last ∧
        stages.length = min wanted.toNat (Step.countExecutable config.marker (Text.lines source)) ∧
        records = stages.map fun s => s.step.record) ∧
    (∀ fault, firstSteps config source wanted = .error fault ↔
      ∃ stages stop last, Step.Takes config (Text.lines source) 0 0 .initial stages stop last ∧
        stages.length < wanted.toNat ∧
        Step.take? config (Text.lines source) stop last stages.length = .error fault) ∧
    (∀ T, Trace.ofSource config source = .ok T →
      firstSteps config source wanted = .ok (T.records.take wanted.toNat)) ∧
    (∀ first rest source' rest', Text.lines source = first ++ rest → Text.lines source' = first ++ rest' →
      wanted ≤ Step.countExecutable config.marker first →
      Step.isLast config.marker rest' = Step.isLast config.marker rest →
      firstSteps config source' wanted = firstSteps config source wanted) ∧
    ∀ records, firstSteps config source wanted = .ok records → ∀ r ∈ records,
      ∃ (position : Nat) (ran : Machine), r.lineNumber = position + 1 ∧
        executeAll config ((Text.lines source).take (position + 1)) .initial = .ok ran ∧
        r.memory = (if Step.isLast config.marker ((Text.lines source).drop (position + 1)) then
          ran.closeDefinition else ran).memory := by
  refine ⟨?_, ?_, ?_, ?_, ?_⟩
  · intro records
    exact firstSteps_eq_ok_iff
  · intro fault
    exact firstSteps_eq_error_iff
  · intro T hT
    exact firstSteps_of_trace hT
  · intro first rest source' rest' hsource hsource' hwanted hlast
    exact firstSteps_congr hsource hsource' hlast hwanted
  · intro records hrecords r hr
    exact exists_executeAll_of_firstSteps hrecords hr

/-- Three lines, of which the last two open a definition, and a call of it. -/
def defining : Text := "x = 1\ndef f():\n  print(x)\nf()".toList

/-- The same three lines, and one that cannot be executed. -/
def defective : Text := "x = 1\ndef f():\n  print(x)\nxs = [1".toList ++ List.replicate 309 '0' ++ [']']

/-- The first three steps show the definition open, whatever line follows them. -/
theorem first_steps_run_nothing_more_defective : ∃ T records, Trace.ofSource {} defining = .ok T ∧
    Trace.ofSource {} defective = .error .numberTooLarge ∧
    firstSteps {} defective 3 = .ok records ∧ records = T.records.take 3 ∧
    (records.map fun r => Fields.keys r.memory) = List.replicate 3 ["x".toList] ∧
    ∃ stages stop last, Step.Takes {} (Text.lines defective) 0 0 .initial stages stop last ∧
      stages.length = 3 ∧ records = stages.map fun s => s.step.record := by
  have hT := Option.eq_some_of_isSome (o := (Trace.ofSource {} defining).toOption) (by decide +kernel)
  obtain ⟨-, -, htrace, hcongr, -⟩ := first_steps_run_nothing_more {} defining 3
  obtain ⟨htakes, -⟩ := first_steps_run_nothing_more {} defective 3
  have hsame : firstSteps {} defective 3 = firstSteps {} defining 3 :=
    hcongr ((Text.lines defining).take 3) ((Text.lines defining).drop 3) defective ((Text.lines defective).drop 3)
      (by decide +kernel) (by decide +kernel) (by decide +kernel) (by decide +kernel)
  have hrecords := hsame.trans (htrace _ (eq_ok_of_toOption hT))
  obtain ⟨stages, stop, last, hstages, hlength, hstaged⟩ := (htakes _).mp hrecords
  have hthree : min (3 : Int).toNat (Step.countExecutable ['#'] (Text.lines defective)) = 3 := by decide +kernel
  exact ⟨_, _, eq_ok_of_toOption hT, eq_error_of_toOption (by decide +kernel) _, hrecords, rfl, by decide +kernel,
    stages, stop, last, hstages, hlength.trans hthree, hstaged⟩

end SnippetTutor
