import SnippetTutor.Proofs.Literal.Modest
import SnippetTutor.Proofs.Trace.Visited
import SnippetTutor.Proofs.Trace.Walk

/-! # Runs that come to no end

A run executes the lines of its source one after another, and it comes to its end unless
one of them cannot be executed. That takes a list literal that is decoded and then holds
a whole number beyond the range of the finite numbers. On a stack that ends, it can also take
calls or values that are nested too deep; so what is said of all runs here is said of those
that stay within bounds.
-/
namespace SnippetTutor
open Outcome

namespace Machine

/-- A line is executed well within the bounds of a stack: calls and values are nested no deeper than
list literals may be, and so are the literals that the line reads. -/
structure Modest (config : Config) (line : Text) (m : Machine) : Prop where
  calls : m.depth ≤ Literal.maxNesting
  values : ∀ field ∈ m.memory, (field.2.depth : Int) ≤ Literal.maxNesting
  tokens : ∀ token ∈ reads config line m, Literal.Modest token

instance (config : Config) (line : Text) (m : Machine) : Decidable (m.Modest config line) :=
  decidable_of_iff (m.depth ≤ Literal.maxNesting ∧
      (∀ field ∈ m.memory, (field.2.depth : Int) ≤ Literal.maxNesting) ∧
      ∀ token ∈ reads config line m, Literal.Modest token)
    ⟨fun h => ⟨h.1, h.2.1, h.2.2⟩, fun h => ⟨h.calls, h.values, h.tokens⟩⟩

end Machine

namespace Trace
open Machine

theorem ofSource_eq_error_iff_runs {config : Config} {source : Text} {fault : Fault} :
    ofSource config source = .error fault ↔
      ∃ line' m', Runs config source line' m' ∧
        ∃ token ∈ reads config line' m', Literal.Faulty token := by
  rw [ofSource_eq_error, Run.ofLines, Run.walk_ending_eq_error, executeAll, foldlM_eq_error]
  constructor
  · rintro ⟨done, line, rest, m, hlines, hdone, hline⟩
    obtain ⟨line', m', hreached, hfaulty⟩ := execute_eq_error_iff_reached.mp hline
    exact ⟨line', m', ⟨done, line, rest, m, hlines, hdone, hreached⟩, hfaulty⟩
  · rintro ⟨line', m', ⟨done, line, rest, m, hlines, hdone, hreached⟩, hfaulty⟩
    refine ⟨done, line, rest, m, hlines, hdone, ?_⟩
    exact execute_eq_error_iff_reached.mpr ⟨line', m', hreached, hfaulty⟩

end Trace

open Machine

/-- A function whose body holds an oversized list, and a line that may call it. -/
def burdened (last : Text) : Text :=
  "xs = [[1], 'a']\ndef f(a):\n  xs.append(a)\n  ys = [1".toList ++ List.replicate 309 '0' ++ "]\n".toList ++ last

end SnippetTutor
