import SnippetTutor.Proofs.Json.Surrogates
import SnippetTutor.Proofs.Literal.Nesting

/-! # Literals within bounds

Values are of any depth here, and texts hold characters only. An implementation has a stack that ends,
and its texts may hold single surrogates, which an escape in a list can bring in. What is proved of a
literal can be relied on there as long as the literal is modest: it is not nested deeper than the guard
against deep lists allows, and each surrogate that it escapes has its other half.
-/
namespace SnippetTutor.Literal

/-- A literal within the bounds of a reader that has a stack and keeps single surrogates. -/
structure Modest (token : Text) : Prop where
  paired : Json.SurrogatesPaired token
  shallow : structuralNesting token ≤ maxNesting

instance (token : Text) : Decidable (Modest token) :=
  decidable_of_iff (Json.SurrogatesPaired token ∧ structuralNesting token ≤ maxNesting)
    ⟨fun h => ⟨h.1, h.2⟩, fun h => ⟨h.paired, h.shallow⟩⟩

example : Modest "[['\\ud83d\\ude00'], 1]".toList ∧ ¬ Modest "['\\ud83d', 1]".toList := by decide +kernel

end SnippetTutor.Literal
