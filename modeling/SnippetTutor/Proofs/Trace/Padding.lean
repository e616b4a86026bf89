import SnippetTutor.Proofs.Machine.Bodies
import SnippetTutor.Proofs.Trace.Walk

/-! # Lines that a trace does not see

Lines that are skipped may stand anywhere in a source: between the lines of a body, before its
first one, or after the last line of all. A run over the source with them meets the same lines
in the same machines, and whether a line is the last one to be executed does not depend on them
either. Only the numbers of the lines differ.
That a source has a trace is said for a stack without bounds (`Fault`).
-/
namespace SnippetTutor
open Outcome Machine

/-- The same lines in the same order, with any number of skipped lines inserted anywhere. -/
inductive Padded (marker : Text) : List Text → List Text → Prop
  | nil : Padded marker [] []
  | line {lines padded : List Text} (line : Text) :
      Padded marker lines padded → Padded marker (line :: lines) (line :: padded)
  | skip {lines padded : List Text} {line : Text} :
      isSkippable marker line = true → Padded marker lines padded → Padded marker lines (line :: padded)

/-- A record without the number of its line. -/
def StepRecord.unnumbered (r : StepRecord) : StepRecord := { r with lineNumber := 0 }

namespace Padded
variable {marker : Text} {lines padded : List Text}

theorem isLast (h : Padded marker lines padded) : Step.isLast marker padded = Step.isLast marker lines := by
  induction h with
  | nil => rfl
  | line line _ ih =>
    simp only [Step.isLast, List.all_cons] at ih ⊢
    rw [ih]
  | skip hs _ ih =>
    simp only [Step.isLast, List.all_cons, hs, Bool.true_and] at ih ⊢
    exact ih

/-- Every inserted line is one more line that is skipped. -/
theorem countP (h : Padded marker lines padded) :
    padded.countP (isSkippable marker) + lines.length = lines.countP (isSkippable marker) + padded.length := by
  induction h with
  | nil => rfl
  | line line _ ih =>
    simp only [List.countP_cons, List.length_cons]
    omega
  | skip hs _ ih =>
    simp only [List.countP_cons_of_pos hs, List.length_cons]
    omega

end Padded

namespace Step

/-- Two steps that differ in nothing but the number of the line. -/
structure Alike (s t : Step) : Prop where
  machine : t.machine = s.machine
  record : t.record.unnumbered = s.record.unnumbered

theorem visit_alike (config : Config) (index : Int) (line : Text) (m : Machine) {later later' : List Text}
    (hlater : isLast config.marker later' = isLast config.marker later) (position position' : Nat) :
    Related Alike (visit config index position line later m) (visit config index position' line later' m) := by
  unfold visit
  cases m.execute config line with
  | error fault => exact .error
  | ok ran =>
    simp only [hlater, Bind.bind, Except.bind]
    exact .ok ⟨rfl, rfl⟩

end Step

namespace Run

/-- Two runs that come to the same end, with records that differ in nothing but the numbers of
the lines. -/
structure Alike (r q : Run) : Prop where
  records : q.records.map StepRecord.unnumbered = r.records.map StepRecord.unnumbered
  ending : q.ending = r.ending

variable {config : Config} {lines padded : List Text}

theorem walk_alike (h : Padded config.marker lines padded) (position position' count : Nat) (m : Machine) :
    Alike (walk config position count m lines) (walk config position' count m padded) := by
  induction h generalizing position position' count m with
  | nil => exact ⟨rfl, rfl⟩
  | skip hs _ ih =>
    rw [walk_of_skippable hs]
    exact ih position (position' + 1) count m
  | @line lines padded line hrest ih =>
    cases hs : isSkippable config.marker line with
    | true =>
      rw [walk_of_skippable hs, walk_of_skippable hs]
      exact ih (position + 1) (position' + 1) count m
    | false =>
      have hvisit := Step.visit_alike config count line m hrest.isLast position position'
      cases hv : Step.visit config count position line lines m with
      | error fault =>
        rw [hv] at hvisit
        rw [walk_of_fault hs hv, walk_of_fault hs hvisit.eq_error]
        exact ⟨rfl, rfl⟩
      | ok step =>
        rw [hv] at hvisit
        obtain ⟨step', hv', halike⟩ := hvisit.exists_right
        have hlater := ih (position + 1) (position' + 1) (count + 1) step.machine
        rw [walk_of_visit hs hv, walk_of_visit hs hv', halike.machine]
        refine ⟨?_, hlater.ending⟩
        simp only [prepend, List.map_cons, halike.record, hlater.records]

end Run

/-- Lines that are blank or hold nothing but a comment are invisible wherever they stand. With
more of them a source has a trace exactly if it has one without them. The traces have the same
output and memory and the same records but for the numbers of the lines, and their totals
differ by the inserted lines in the lines of the source and in those that are skipped. -/
theorem skipped_lines_invisible {config : Config} {lines padded : List Text}
    (h : Padded config.marker lines padded) :
    ((∃ U, Trace.ofLines config padded = .ok U) ↔ ∃ T, Trace.ofLines config lines = .ok T) ∧
    ∀ T U, Trace.ofLines config lines = .ok T → Trace.ofLines config padded = .ok U →
      U.output = T.output ∧ U.memory = T.memory ∧
      U.records.map StepRecord.unnumbered = T.records.map StepRecord.unnumbered ∧
      U.stats = { T.stats with
        sourceLines := T.stats.sourceLines + (padded.length - lines.length)
        skippedLines := T.stats.skippedLines + (padded.length - lines.length) } := by
  obtain ⟨hrecords, hending⟩ := Run.walk_alike h 0 0 0 .initial
  constructor
  · simp only [Trace.exists_ofLines_iff, Run.ofLines, hending]
  · intro T U hT hU
    obtain ⟨last, hrun, hmemory, houtput, hstats⟩ := Trace.ofLines_eq_ok hT
    obtain ⟨last', hrun', hmemory', houtput', hstats'⟩ := Trace.ofLines_eq_ok hU
    rw [← Run.ofLines, ← Run.ofLines, hrun, hrun'] at hrecords hending
    cases hending
    refine ⟨houtput'.trans houtput.symm, hmemory'.trans hmemory.symm, hrecords, ?_⟩
    have hcount := h.countP
    have hlength := congrArg List.length hrecords
    simp only [List.length_map] at hlength
    rw [hstats, hstats']
    simp only [Stats.ofRun, Stats.mk.injEq, hlength, true_and, and_true]
    omega

/-- A source that ends inside a definition. -/
def unfinished : List Text := ["x = 1".toList, "def f():".toList, "  print(x)".toList]

/-- The same source with skipped lines before and inside the definition and after it. -/
def unfinishedPadded : List Text :=
  [[], "x = 1".toList, "   // next".toList, "def f():".toList, "// first".toList, " ".toList,
    "  print(x)".toList, "//".toList, []]

/-- The function is bound in the third step, although other lines come after its last one. -/
theorem skipped_lines_invisible_unfinished : ∃ T U, Padded slashed.marker unfinished unfinishedPadded ∧
    Trace.ofLines slashed unfinished = .ok T ∧ Trace.ofLines slashed unfinishedPadded = .ok U ∧
    U.records.map StepRecord.unnumbered = T.records.map StepRecord.unnumbered ∧
    T.records.map StepRecord.lineNumber = [1, 2, 3] ∧ U.records.map StepRecord.lineNumber = [2, 4, 7] ∧
    U.stats.sourceLines = T.stats.sourceLines + 6 ∧ U.stats.skippedLines = T.stats.skippedLines + 6 := by
  have hpadded : Padded slashed.marker unfinished unfinishedPadded :=
    .skip (by decide +kernel) <| .line _ <| .skip (by decide +kernel) <| .line _ <|
      .skip (by decide +kernel) <| .skip (by decide +kernel) <| .line _ <|
      .skip (by decide +kernel) <| .skip (by decide +kernel) .nil
  have hT := Option.eq_some_of_isSome (o := (Trace.ofLines slashed unfinished).toOption) (by decide +kernel)
  obtain ⟨hiff, hsame⟩ := skipped_lines_invisible hpadded
  obtain ⟨U, hU⟩ := hiff.mpr ⟨_, eq_ok_of_toOption hT⟩
  obtain ⟨-, -, hrecords, hstats⟩ := hsame _ U (eq_ok_of_toOption hT) hU
  have hlines : U.records.map StepRecord.lineNumber = [2, 4, 7] := by
    have hnumbers : (Trace.ofLines slashed unfinishedPadded).toOption.map
        (fun U => U.records.map StepRecord.lineNumber) = some [2, 4, 7] := by decide +kernel
    rw [hU] at hnumbers
    exact Option.some.inj hnumbers
  refine ⟨_, U, hpadded, eq_ok_of_toOption hT, hU, hrecords, by decide +kernel, hlines, ?_, ?_⟩
  · rw [hstats]
    rfl
  · rw [hstats]
    rfl

end SnippetTutor
