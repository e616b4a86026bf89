import SnippetTutor.Proofs.Lesson.Document
import SnippetTutor.Proofs.Session.Count
import SnippetTutor.Proofs.Session.Drivers

/-! # Replaying an exported trace

A trace that is written as a lesson can be replayed. The replay shows the lines of the trace one
by one with what they printed, with one exception: a step that printed a single empty line is
taken for one that printed nothing, and its line is missing on the console.
That a replay comes to its end is said for a stack without bounds (`Fault`).
-/
namespace SnippetTutor
open Outcome

namespace StepRecord
variable {shown r : StepRecord} {replayed records : List StepRecord}

theorem Replays.output_of_ne (h : shown.Replays r) (hr : r.output ≠ some []) : shown.output = r.output := by
  rw [h.output]
  cases ho : r.output with
  | none => rfl
  | some t =>
    rw [ho, Ne, Option.some.injEq] at hr
    simp [hr]

theorem Replays.output_of_eq (h : shown.Replays r) (hr : r.output = some []) : shown.output = none := by
  rw [h.output, hr]
  rfl

theorem outputLines_congr (h : shown.output = r.output) : shown.outputLines = r.outputLines := by
  rw [outputLines, outputLines, h]

theorem Replays.length_outputLines_le (h : shown.Replays r) : shown.outputLines.length ≤ r.outputLines.length := by
  by_cases hr : r.output = some []
  · rw [outputLines, h.output_of_eq hr]
    exact Nat.zero_le _
  · rw [outputLines_congr (h.output_of_ne hr)]

theorem length_flatMap_outputLines_le (h : List.Forall₂ Replays replayed records) :
    (replayed.flatMap outputLines).length ≤ (records.flatMap outputLines).length := by
  induction h with
  | nil => exact Nat.le_refl 0
  | cons hshown _ ih =>
    have hle := hshown.length_outputLines_le
    rw [List.flatMap_cons, List.flatMap_cons, List.length_append, List.length_append]
    omega

/-- The replay prints what was printed exactly if no step printed just an empty line. -/
theorem flatMap_outputLines_eq_iff (h : List.Forall₂ Replays replayed records) :
    replayed.flatMap outputLines = records.flatMap outputLines ↔ ∀ r ∈ records, r.output ≠ some [] := by
  induction h with
  | nil => simp
  | @cons shown r replayed records hshown hrest ih =>
    rw [List.flatMap_cons, List.flatMap_cons, List.forall_mem_cons, ← ih]
    by_cases hr : r.output = some []
    · refine iff_of_false ?_ (fun hne => hne.1 hr)
      intro heq
      -- the console of the replay is too short by one line
      have hlength := congrArg List.length heq
      have hle := length_flatMap_outputLines_le hrest
      simp only [outputLines, hshown.output_of_eq hr, hr, Text.splitOn, List.length_append, List.length_nil,
        List.length_singleton] at hlength hle
      omega
    · rw [outputLines_congr (hshown.output_of_ne hr), List.append_right_inj]
      exact ⟨fun heq => ⟨hr, heq⟩, And.right⟩

theorem map_output_eq_iff (h : List.Forall₂ Replays replayed records) :
    replayed.map output = records.map output ↔ ∀ r ∈ records, r.output ≠ some [] := by
  induction h with
  | nil => simp
  | @cons shown r replayed records hshown hrest ih =>
    rw [List.map_cons, List.map_cons, List.cons.injEq, List.forall_mem_cons, ih]
    by_cases hr : r.output = some []
    · simp [hshown.output_of_eq hr, hr]
    · simp [hshown.output_of_ne hr, hr]

theorem map_source_eq (h : List.Forall₂ Replays replayed records) :
    (replayed.map fun r => (r.lineNumber, r.source)) = records.map fun r => (r.lineNumber, r.source) := by
  induction h with
  | nil => rfl
  | cons hshown _ ih => rw [List.map_cons, List.map_cons, ih, hshown.lineNumber, hshown.source]

end StepRecord

namespace Session
variable {s t : Session} {records : List StepRecord}

theorem step_of_authored (h : s.authored = some records) :
    ∃ t, s.step = .ok t ∧ t.authored = some records := by
  rw [step]
  split
  · exact ⟨s, rfl, h⟩
  · rw [h]
    refine ⟨_, rfl, ?_⟩
    rw [replay]
    split <;> exact h

theorem stepUntilCompleted_of_authored (h : s.authored = some records) (count : Nat) :
    (stepUntilCompleted count s).fault = none ∧ (stepUntilCompleted count s).session.authored = some records := by
  induction count generalizing s with
  | zero => exact ⟨rfl, h⟩
  | succ count ih =>
    rw [stepUntilCompleted]
    split
    · exact ⟨rfl, h⟩
    · obtain ⟨next, hnext, hauthored⟩ := step_of_authored h
      rw [hnext]
      exact ih hauthored

/-- Hand-written steps can always be replayed to their end, and then all have been shown. -/
theorem reduce_runAll_of_authored (h : s.authored = some records) :
    ∃ t, s.reduce .runAll = .ok t ∧ t.history = records ∧ t.position = records.length ∧
      t.console = records.flatMap StepRecord.outputLines := by
  obtain ⟨hfault, hauthored⟩ : s.runToEnd.fault = none ∧ s.runToEnd.session.authored = some records :=
    stepUntilCompleted_of_authored (s := s.restart) h s.stepBound
  have hrun : s.reduce .runAll = .ok s.runToEnd.session := by
    rw [reduce, orFault_eq_ok, Progress.result, hfault]
  have hconsistent : s.runToEnd.session.Consistent := (consistent_restart s).stepUntilCompleted s.stepBound
  have hahead := hconsistent.completed (reduce_runAll_completed hrun)
  have hcounted := hconsistent.counted
  rw [hahead, size_of_authored hauthored, Nat.add_zero] at hcounted
  obtain ⟨-, -, hhistory⟩ := hconsistent.replayed records hauthored
  rw [hcounted, List.take_length] at hhistory
  refine ⟨_, hrun, hhistory, hcounted, ?_⟩
  rw [hconsistent.console, hhistory]

/-- The document of a source and its trace is a lesson that can be replayed to its end, whatever
the settings. The replay takes as many steps as the run of the source and shows the same lines of
it. What it shows of the output of a step is the same, unless the step printed a single empty line,
which the replay leaves out; console and output are therefore those of the run if and only if no
step did so. -/
theorem exported_trace_replays {config : Config} {source : Text} {T : Trace}
    (hT : Trace.ofSource config source = .ok T) (settings : Config) :
    ∃ lesson s t u, Lesson.check (T.lessonDocument source) = .ok lesson ∧
      ofLesson settings lesson = .ok s ∧ s.reduce .runAll = .ok t ∧
      (ofSource config source).reduce .runAll = .ok u ∧ t.position = u.position ∧
      (t.history.map fun r => (r.lineNumber, r.source)) = (u.history.map fun r => (r.lineNumber, r.source)) ∧
      List.Forall₂ (fun shown r => shown.output = r.output.filter (!·.isEmpty)) t.history u.history ∧
      (t.history.map StepRecord.output = u.history.map StepRecord.output ↔ ∀ r ∈ u.history, r.output ≠ some []) ∧
      (t.console = u.console ↔ ∀ r ∈ u.history, r.output ≠ some []) := by
  obtain ⟨records, hrecords, hreplays⟩ := Trace.exists_records_toLesson hT
  have hs : ofLesson settings (T.toLesson source) =
      .ok { ofSource settings source with authored := some records } :=
    bind_eq_ok.mpr ⟨records, hrecords, rfl⟩
  obtain ⟨t, ht, hhistory, hposition, hconsole⟩ :=
    reduce_runAll_of_authored (s := { ofSource settings source with authored := some records }) rfl
  rcases reduce_runAll_ofSource config source with ⟨u, hu, hp, hf⟩ | ⟨fault, -, he⟩
  · obtain ⟨hshown, -, -, hcount⟩ := hf.shows_trace hT hp
    rw [← hshown] at hreplays
    refine ⟨_, _, t, u, Trace.check_lessonDocument hT, hs, ht, hu, ?_, ?_, ?_, ?_, ?_⟩
    · rw [hposition, hreplays.length_eq, hshown, hcount]
    · rw [hhistory]
      exact StepRecord.map_source_eq hreplays
    · rw [hhistory]
      exact hreplays.imp fun _ _ h => h.output
    · rw [hhistory]
      exact StepRecord.map_output_eq_iff hreplays
    · rw [hconsole, hf.console]
      exact StepRecord.flatMap_outputLines_eq_iff hreplays
  · rw [Trace.ofSource_eq_error.mpr he] at hT
    cases hT

/-- A call that prints two lines, of which the first is empty. -/
def spacious : Text := "def f(a):\n print()\n print(a)\nf([1, 2])".toList

/-- An empty line among others is replayed, and so is the memory with a function in it. -/
theorem exported_trace_replays_spacious : ∃ T lesson s t u,
    Trace.ofSource {} spacious = .ok T ∧ Lesson.check (T.lessonDocument spacious) = .ok lesson ∧
    ofLesson {} lesson = .ok s ∧ s.reduce .runAll = .ok t ∧ (ofSource {} spacious).reduce .runAll = .ok u ∧
    t.console = u.console ∧ u.console = [[], "[1, 2]".toList] := by
  have hT := Option.eq_some_of_isSome (o := (Trace.ofSource {} spacious).toOption) (by decide +kernel)
  have hcomputed : ((ofSource {} spacious).reduce .runAll).toOption.map
      (fun u => (u.console, u.history.map StepRecord.output)) =
      some ([[], "[1, 2]".toList], [none, none, none, some "\n[1, 2]".toList]) := by decide +kernel
  obtain ⟨lesson, s, t, u, hlesson, hs, ht, hu, -, -, -, -, hiff⟩ :=
    exported_trace_replays (eq_ok_of_toOption hT) {}
  rw [hu] at hcomputed
  obtain ⟨hconsole, houtputs⟩ := Prod.mk.inj (Option.some.inj hcomputed)
  refine ⟨_, lesson, s, t, u, eq_ok_of_toOption hT, hlesson, hs, ht, hu, hiff.mpr ?_, hconsole⟩
  intro r hr hempty
  have hmem := List.mem_map_of_mem (f := StepRecord.output) hr
  rw [houtputs, hempty] at hmem
  revert hmem
  decide

/-- The trace of a source that prints an empty line. -/
def emptyLine : Trace where
  records := [{ index := 0, lineNumber := 1, source := "print()".toList, kind := .printCall, output := some [] }]
  output := [[]]
  stats := { steps := 1, sourceLines := 1, outputLines := 1 }

/-- The empty line is missing in the replay of its trace. -/
theorem empty_line_not_replayed :
    Trace.ofSource {} "print()".toList = .ok emptyLine ∧ ∃ lesson s t u,
      Lesson.check (emptyLine.lessonDocument "print()".toList) = .ok lesson ∧ ofLesson {} lesson = .ok s ∧
      s.reduce .runAll = .ok t ∧ (ofSource {} "print()".toList).reduce .runAll = .ok u ∧
      u.console = [[]] ∧ t.console = [] ∧ t.console ≠ u.console ∧
      t.history.map StepRecord.output ≠ u.history.map StepRecord.output := by
  have hT : Trace.ofSource {} "print()".toList = .ok emptyLine := eq_ok_of_toOption (by decide +kernel)
  have hs := Option.eq_some_of_isSome
    (o := (ofLesson {} (emptyLine.toLesson "print()".toList)).toOption) (by decide +kernel)
  have ht := Option.eq_some_of_isSome (o := (Session.reduce
    ((ofLesson {} (emptyLine.toLesson "print()".toList)).toOption.get (by decide +kernel)) .runAll).toOption)
    (by decide +kernel)
  have hu := Option.eq_some_of_isSome
    (o := ((ofSource {} "print()".toList).reduce .runAll).toOption) (by decide +kernel)
  exact ⟨hT, _, _, _, _, Trace.check_lessonDocument hT, eq_ok_of_toOption hs, eq_ok_of_toOption ht,
    eq_ok_of_toOption hu, by decide +kernel, by decide +kernel, by decide +kernel, by decide +kernel⟩

end Session

end SnippetTutor
