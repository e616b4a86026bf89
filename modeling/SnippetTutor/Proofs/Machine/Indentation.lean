import SnippetTutor.Proofs.Machine.Collection
import SnippetTutor.Proofs.Trace.Definition

/-! # Indentation outside a definition

Where no definition is open, the blanks in front of a line decide nothing but the kind under which it
is classified. The line is executed as it is without them, and as the text that a body would store of
it. Stored lines are therefore run as the lines of the source would be, written without indentation in
the scope of the call.
That lines have results is said for a stack without bounds (`Fault`).
-/
namespace SnippetTutor

namespace Statement
variable {marker line : Text}

/-- What is left of a line without its blanks and its comment. -/
theorem text_ofLine (h : isSkippable marker line = false) :
    (ofLine marker line).text = uncomment marker (Text.trim line) := by
  rw [ofLine_of_executable h]
  split <;> rfl

theorem kind_ofLine_eq_functionBodyLine_iff (h : isSkippable marker line = false) :
    (ofLine marker line).kind = .functionBodyLine ↔ isIndented line = true := by
  rw [ofLine_of_executable h]
  cases isIndented line with
  | true => exact iff_of_true rfl rfl
  | false => exact iff_of_false (Shape.kind_ne_functionBodyLine _) Bool.false_ne_true

/-- The line without its blanks and the text that is left of it are the same statement. -/
theorem ofLine_text (h : isSkippable marker line = false) :
    ofLine marker (ofLine marker line).text = ofLine marker (Text.trim line) := by
  rw [text_ofLine h, (normal_uncomment h).ofLine, ofLine_trim h]

end Statement

namespace Machine
open Outcome

variable {config : Config} {line : Text} {lines : List Text} {m n : Machine}

/-- Where no definition is open, a line is executed as it is without its blanks. -/
theorem execute_trim (hp : m.pending = none) (hs : isSkippable config.marker line = false) :
    execute config (Text.trim line) m = execute config line m := by
  have htrimmed : isSkippable config.marker (Text.trim line) = false := by rw [isSkippable_trim, hs]
  have hsame := performed?_of_top hp htrimmed
  rw [Text.trim_trim] at hsame
  exact (executeWith_of_performed hsame).trans (executeWith_of_performed (performed?_of_top hp hs)).symm

/-- Whatever is open, the stored text is executed as the line is without its blanks. -/
theorem execute_text (hs : isSkippable config.marker line = false) (m : Machine) :
    execute config (Statement.ofLine config.marker line).text m = execute config (Text.trim line) m := by
  simp only [execute, executeWith, Statement.ofLine_text hs]

theorem execute_uncomment (hs : isSkippable config.marker line = false) (m : Machine) :
    execute config (uncomment config.marker (Text.trim line)) m = execute config (Text.trim line) m := by
  rw [← Statement.text_ofLine hs]
  exact execute_text hs m

/-- A body runs as its lines do without their blanks, those that are skipped included. -/
theorem runBody_storedLines (hlive : m.exhausted = false) :
    runBody (execute config) (storedLines config.marker lines) m =
      runBody (execute config) (lines.map Text.trim) m := by
  induction lines generalizing m with
  | nil => rfl
  | cons line rest ih =>
    rw [List.map_cons]
    cases hs : isSkippable config.marker line with
    | true =>
      have hskipped : execute config (Text.trim line) m = .ok m :=
        execute_of_skippable (by rw [isSkippable_trim, hs])
      rw [storedLines_cons_of_skippable hs, runBody_cons_of_live hskipped hlive]
      exact ih hlive
    | false =>
      rw [storedLines_cons_of_executable hs]
      have hline := execute_uncomment hs m
      cases hran : execute config (Text.trim line) m with
      | error fault =>
        rw [hran] at hline
        simp only [runBody, hline, hran]
        rfl
      | ok ran =>
        rw [hran] at hline
        cases hexhausted : ran.exhausted with
        | true => rw [runBody_cons_of_exhausted hline hexhausted, runBody_cons_of_exhausted hran hexhausted]
        | false =>
          rw [runBody_cons_of_live hline hexhausted, runBody_cons_of_live hran hexhausted]
          exact ih hexhausted

/-- Blanks in front of a line decide whether it is classified as a line of a body, and nothing else
where no definition is open: the line, the line without its blanks and the text that a body would
store of it do the same. Where a definition is open, that text is stored, and whenever it is run
again it does what the line does without its blanks. So does a whole body. -/
theorem indentation_only_classifies (config : Config) :
    (∀ line, isSkippable config.marker line = false →
      ((Statement.ofLine config.marker line).kind = .functionBodyLine ↔ isIndented line = true) ∧
      (Statement.ofLine config.marker (Text.trim line)).kind ≠ .functionBodyLine ∧
      (∀ m, m.pending = none →
        execute config (Text.trim line) m = execute config line m ∧
        execute config (Statement.ofLine config.marker line).text m = execute config line m) ∧
      (isIndented line = true → ∀ (m : Machine) f, execute config line (m.collecting f) = .ok
        (m.collecting { f with body := f.body ++ [(Statement.ofLine config.marker line).text] })) ∧
      ∀ n, execute config (Statement.ofLine config.marker line).text n =
        execute config (Text.trim line) n) ∧
    ∀ lines, Continues config.marker lines →
      (∀ (m : Machine) f, executeAll config lines (m.collecting f) = .ok
        (m.collecting { f with body := f.body ++ storedLines config.marker lines })) ∧
      ∀ n, n.exhausted = false →
        runBody (execute config) (storedLines config.marker lines) n =
          runBody (execute config) (lines.map Text.trim) n := by
  refine ⟨fun line hs => ⟨?_, ?_, ?_, ?_, ?_⟩, fun lines hlines => ⟨?_, ?_⟩⟩
  · exact Statement.kind_ofLine_eq_functionBodyLine_iff hs
  · rw [Statement.ofLine_trim hs]
    exact Shape.kind_ne_functionBodyLine _
  · intro m hp
    have htrim : execute config (Text.trim line) m = execute config line m := execute_trim hp hs
    exact ⟨htrim, (execute_text hs m).trans htrim⟩
  · intro hi m f
    rw [Statement.text_ofLine hs]
    exact execute_collecting hs hi
  · exact execute_text hs
  · exact executeAll_collecting hlines
  · intro n hlive
    exact runBody_storedLines hlive

/-- A list, with no definition open. -/
def listing : Machine := { memory := [("xs".toList, .list [])] }

/-- A tab, a marker inside a literal and a comment: all three texts append the same item. -/
theorem indentation_only_classifies_slashed :
    (Statement.ofLine "//".toList "\txs.append('a // b')  // one".toList).text =
      "xs.append('a // b')".toList ∧
    execute slashed "xs.append('a // b')".toList listing =
      execute slashed "\txs.append('a // b')  // one".toList listing ∧
    ∃ n, execute slashed "\txs.append('a // b')  // one".toList listing = .ok n ∧
      n.memory = [("xs".toList, .list [.text "a // b".toList])] ∧
    runBody (execute slashed) ["xs.append('a // b')".toList] listing =
      runBody (execute slashed) ["xs.append('a // b')  // one".toList, "// two".toList] listing := by
  obtain ⟨hline, hlines⟩ := indentation_only_classifies slashed
  have htext : (Statement.ofLine slashed.marker "\txs.append('a // b')  // one".toList).text =
      "xs.append('a // b')".toList := by decide +kernel
  obtain ⟨-, -, hsame, -, -⟩ := hline "\txs.append('a // b')  // one".toList (by decide +kernel)
  obtain ⟨-, hsame⟩ := hsame listing rfl
  rw [htext] at hsame
  have hcontinues : Continues slashed.marker
      ["\txs.append('a // b')  // one".toList, "  // two".toList] := by
    refine List.forall_mem_cons.mpr ⟨Or.inr (by decide +kernel), ?_⟩
    exact List.forall_mem_singleton.mpr (Or.inl (by decide +kernel))
  obtain ⟨-, hbody⟩ := hlines _ hcontinues
  have hbody := hbody listing rfl
  have hran := Option.eq_some_of_isSome
    (o := (execute slashed "\txs.append('a // b')  // one".toList listing).toOption) (by decide +kernel)
  have hstored : storedLines slashed.marker
      ["\txs.append('a // b')  // one".toList, "  // two".toList] = ["xs.append('a // b')".toList] := by
    decide +kernel
  have htrimmed : ["\txs.append('a // b')  // one".toList, "  // two".toList].map Text.trim =
      ["xs.append('a // b')  // one".toList, "// two".toList] := by decide +kernel
  rw [hstored, htrimmed] at hbody
  exact ⟨htext, hsame, _, eq_ok_of_toOption hran, by decide +kernel, hbody⟩

end Machine

end SnippetTutor
