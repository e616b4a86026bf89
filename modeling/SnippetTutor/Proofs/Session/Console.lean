import Mathlib.Data.List.Basic
import SnippetTutor.Proofs.Session.Drivers
import SnippetTutor.Proofs.Text.Split
import SnippetTutor.Proofs.Trace.Stage

/-! # The console of a session

A record keeps the lines that its statement printed as one text, and the console is
rebuilt from these texts. A line of output that holds a line feed, as a list item with
an escape in it does when the list is printed, therefore shows as several lines. It is
the only way in which console and output can differ.
That the run of a session comes to its end is said for a stack without bounds (`Fault`).
-/
namespace SnippetTutor
open Outcome

theorem StepRecord.outputLines_of_joinOutput {record : StepRecord} {added : List Text}
    (h : record.output = joinOutput added) :
    record.outputLines = added.flatMap (Text.splitOn '\n') := by
  unfold outputLines
  rw [h, joinOutput]
  cases added with
  | nil => rfl
  | cons line rest => exact Text.splitOn_joinWith '\n' (List.cons_ne_nil line rest)

/-- The lines of all records together are the output, cut at its line feeds. -/
theorem Trace.outputLines_eq {config : Config} {source : Text} {T : Trace}
    (h : ofSource config source = .ok T) :
    T.records.flatMap StepRecord.outputLines = T.output.flatMap (Text.splitOn '\n') := by
  obtain ⟨stages, last, hstages, hrecords, -, houtput⟩ := exists_stages h
  have hlines : ∀ s ∈ stages, s.step.record.outputLines = s.added.flatMap (Text.splitOn '\n') := by
    intro s hs
    obtain ⟨position, hat⟩ := hstages.exists_at s hs
    exact StepRecord.outputLines_of_joinOutput (Step.visit_added hat.visit).2
  rw [hrecords, houtput, List.flatMap_map, List.flatMap_assoc]
  exact List.flatMap_congr hlines

namespace Session

/-- The console after a run is the output cut at its line feeds, and so it is the output
itself exactly if no line of the output holds a line feed. -/
theorem console_eq_output_iff (config : Config) (source : Text) {T : Trace}
    (hT : Trace.ofSource config source = .ok T) :
    ∃ s, (ofSource config source).reduce .runAll = .ok s ∧
      s.console = T.output.flatMap (Text.splitOn '\n') ∧
      (s.console = T.output ↔ ∀ line ∈ T.output, '\n' ∉ line) := by
  rcases reduce_runAll_ofSource config source with ⟨s, hs, hp, hf⟩ | ⟨fault, -, he⟩
  · obtain ⟨hhistory, -⟩ := hf.shows_trace hT hp
    have hconsole : s.console = T.output.flatMap (Text.splitOn '\n') := by
      rw [hf.console, hhistory, Trace.outputLines_eq hT]
    refine ⟨s, hs, hconsole, ?_⟩
    rw [hconsole]
    exact Text.flatMap_splitOn_eq_self '\n'
  · rw [Trace.ofSource_eq_error.mpr he] at hT
    cases hT

/-- A run that prints a list and an empty line shows both as they are. -/
theorem console_eq_output_iff_plain :
    ∃ T s, Trace.ofSource {} "x = ['a', 'b']\nprint(x)\nprint()".toList = .ok T ∧
      (ofSource {} "x = ['a', 'b']\nprint(x)\nprint()".toList).reduce .runAll = .ok s ∧
      s.console = T.output ∧ T.output = ["['a', 'b']".toList, []] := by
  have hT := Option.eq_some_of_isSome
    (o := (Trace.ofSource {} "x = ['a', 'b']\nprint(x)\nprint()".toList).toOption) (by decide +kernel)
  obtain ⟨s, hs, -, hiff⟩ := console_eq_output_iff {} _ (eq_ok_of_toOption hT)
  exact ⟨_, s, eq_ok_of_toOption hT, hs, hiff.mpr (by decide +kernel), by decide +kernel⟩

/-- One printed line that the console shows as two. -/
theorem console_ne_output :
    ∃ T s, Trace.ofSource {} "xs = ['a\\nb']\nprint(xs)".toList = .ok T ∧
      (ofSource {} "xs = ['a\\nb']\nprint(xs)".toList).reduce .runAll = .ok s ∧
      T.output = ["['a\nb']".toList] ∧ s.console = ["['a".toList, "b']".toList] ∧
      s.console ≠ T.output := by
  have hT := Option.eq_some_of_isSome
    (o := (Trace.ofSource {} "xs = ['a\\nb']\nprint(xs)".toList).toOption) (by decide +kernel)
  have hs := Option.eq_some_of_isSome
    (o := ((ofSource {} "xs = ['a\\nb']\nprint(xs)".toList).reduce .runAll).toOption) (by decide +kernel)
  exact ⟨_, _, eq_ok_of_toOption hT, eq_ok_of_toOption hs, by decide +kernel, by decide +kernel,
    by decide +kernel⟩

end Session

end SnippetTutor
