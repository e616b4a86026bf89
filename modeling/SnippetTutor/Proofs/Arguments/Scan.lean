import Mathlib.Data.List.Induction
import SnippetTutor.Arguments
import SnippetTutor.Proofs.Statement.Grammar

/-! # The scan of an argument text

The scan is in a literal or not, and has some brackets open. It counts, but what it counts can be said
without counting: outside of literals a text is made of balanced parts, of brackets that open and are not
closed, and of brackets that close where none is open, which do not matter.
-/
namespace SnippetTutor.Arguments
open Text

/-- Where the scan of an argument text stands: the literal that it is inside, if it is inside one,
and how many brackets are open. -/
structure Scan where
  quote : Quote
  depth : Nat
deriving DecidableEq

namespace Scan

/-- Outside of literals and brackets. -/
def start : Scan := ⟨none, 0⟩

def after (s : Scan) (c : Char) : Scan where
  quote := s.quote.after c
  depth := if s.quote.isPlain c then depthAfter s.depth c else s.depth

def afterText (s : Scan) (t : Text) : Scan := t.foldl after s

@[simp] theorem afterText_nil (s : Scan) : s.afterText [] = s := rfl

@[simp] theorem afterText_cons (s : Scan) (c : Char) (t : Text) :
    s.afterText (c :: t) = (s.after c).afterText t := rfl

theorem start_after_comma : Scan.start.after ',' = .start := by decide

/-- The scan can only be inside of a literal that a quote has opened. -/
def Sound (s : Scan) : Prop := ∀ q ∈ s.quote, isQuote q = true

theorem sound_start : start.Sound := nofun

theorem Sound.after {s : Scan} (h : s.Sound) (c : Char) : (s.after c).Sound := by
  obtain ⟨quote, depth⟩ := s
  intro q hq
  cases quote with
  | none =>
    simp only [Scan.after, Quote.after, Option.mem_def, Option.ite_none_right_eq_some, Option.some.injEq] at hq
    exact hq.2 ▸ hq.1
  | some opening =>
    simp only [Scan.after, Quote.after, Option.mem_def, Option.ite_none_left_eq_some, Option.some.injEq] at hq
    exact h q (congrArg some hq.2)

/-- A blank is no mark of the scan. -/
theorem after_blank {c : Char} (h : isBlank c = true) {s : Scan} (hs : s.Sound) : s.after c = s := by
  have hmark : ∀ d, isBlank d = false → c ≠ d := fun d hd => ne_of_class h hd
  have hquote : isQuote c = false := by
    simp [isQuote, hmark '\'' (by decide), hmark '"' (by decide)]
  have hopening : ¬ (c = '(' ∨ c = '[' ∨ c = '\x7b') := by
    simp [hmark '(' (by decide), hmark '[' (by decide), hmark '\x7b' (by decide)]
  have hclosing : ¬ (c = ')' ∨ c = ']' ∨ c = '\x7d') := by
    simp [hmark ')' (by decide), hmark ']' (by decide), hmark '\x7d' (by decide)]
  obtain ⟨quote, depth⟩ := s
  cases quote with
  | none => simp [after, Quote.after, hquote, depthAfter, hopening, hclosing]
  | some q =>
    have hq : c ≠ q := (ne_of_class (hs q rfl) hquote).symm
    simp [after, Quote.after, Quote.isPlain, hq]

theorem afterText_append (s : Scan) (t u : Text) : s.afterText (t ++ u) = (s.afterText t).afterText u :=
  List.foldl_append

end Scan

/-- The scan of the text ends outside of literals and brackets. -/
def Closed (t : Text) : Prop := Scan.start.afterText t = .start

instance (t : Text) : Decidable (Closed t) := inferInstanceAs (Decidable (_ = _))

/-! ## Balanced texts -/

def Opening (c : Char) : Prop := c = '(' ∨ c = '[' ∨ c = '\x7b'

def Closing (c : Char) : Prop := c = ')' ∨ c = ']' ∨ c = '\x7d'

instance (c : Char) : Decidable (Opening c) := inferInstanceAs (Decidable (_ ∨ _ ∨ _))

instance (c : Char) : Decidable (Closing c) := inferInstanceAs (Decidable (_ ∨ _ ∨ _))

/-- All literals end, and outside of them all brackets are closed, by a bracket of any kind. -/
inductive Balanced : Text → Prop
  | nil : Balanced []
  | plain {c : Char} {t : Text} (hquote : isQuote c = false) (hopening : ¬ Opening c) (hclosing : ¬ Closing c)
      (rest : Balanced t) : Balanced (c :: t)
  | literal {q : Char} {content t : Text} (hq : isQuote q = true) (hcontent : q ∉ content) (rest : Balanced t) :
      Balanced (q :: (content ++ q :: t))
  | brackets {o c : Char} {inside t : Text} (ho : Opening o) (hc : Closing c) (hinside : Balanced inside)
      (rest : Balanced t) : Balanced (o :: (inside ++ c :: t))

/-- The text ends outside of literals, and so many of its brackets are open then. -/
inductive Leaves : Nat → Text → Prop
  | balanced {t : Text} (h : Balanced t) : Leaves 0 t
  | closing {t u : Text} {c : Char} (h : Leaves 0 t) (hc : Closing c) (hu : Balanced u) : Leaves 0 (t ++ c :: u)
  | opening {n : Nat} {t u : Text} {o : Char} (h : Leaves n t) (ho : Opening o) (hu : Balanced u) :
      Leaves (n + 1) (t ++ o :: u)

section Brackets
variable {t u content : Text} {c o q : Char} {n : Nat}

theorem Balanced.append (h : Balanced t) (hu : Balanced u) : Balanced (t ++ u) := by
  induction h with
  | nil => exact hu
  | plain hquote hopening hclosing _ ih => exact .plain hquote hopening hclosing ih
  | literal hq hcontent _ ih =>
    rw [List.cons_append, List.append_assoc, List.cons_append]
    exact .literal hq hcontent ih
  | brackets ho hc hinside _ _ ih =>
    rw [List.cons_append, List.append_assoc, List.cons_append]
    exact .brackets ho hc hinside ih

theorem Leaves.append (h : Leaves n t) (hu : Balanced u) : Leaves n (t ++ u) := by
  cases h with
  | balanced h => exact .balanced (h.append hu)
  | closing h hc hrest =>
    rw [List.append_assoc, List.cons_append]
    exact .closing h hc (hrest.append hu)
  | opening h ho hrest =>
    rw [List.append_assoc, List.cons_append]
    exact .opening h ho (hrest.append hu)

/-- A bracket that closes takes back the last one that is open, if there is one. -/
theorem Leaves.append_closing (h : Leaves n t) (hc : Closing c) : Leaves (n - 1) (t ++ [c]) := by
  cases h with
  | balanced h => exact .closing (.balanced h) hc .nil
  | closing h hc' hrest => exact .closing (.closing h hc' hrest) hc .nil
  | opening h ho hrest =>
    rw [List.append_assoc]
    exact h.append (.brackets ho hc hrest .nil)

theorem Opening.not_isQuote (h : Opening c) : isQuote c = false := by
  rcases h with rfl | rfl | rfl <;> decide

theorem Closing.not_isQuote (h : Closing c) : isQuote c = false := by
  rcases h with rfl | rfl | rfl <;> decide

theorem Closing.not_opening (h : Closing c) : ¬ Opening c := by
  rcases h with rfl | rfl | rfl <;> decide

namespace Scan

/-- What a character that is no quote does outside of literals. -/
theorem after_of_not_isQuote (h : isQuote c = false) (n : Nat) : after ⟨none, n⟩ c =
    ⟨none, if Opening c then n + 1 else if Closing c then n - 1 else n⟩ := by
  simp only [after, Quote.after, Quote.isPlain, h, Option.isNone_none, Bool.not_false, Bool.and_true, if_true,
    Bool.false_eq_true, if_false]
  rfl

theorem after_opening (h : Opening c) (n : Nat) : after ⟨none, n⟩ c = ⟨none, n + 1⟩ := by
  rw [after_of_not_isQuote h.not_isQuote, if_pos h]

theorem after_closing (h : Closing c) (n : Nat) : after ⟨none, n⟩ c = ⟨none, n - 1⟩ := by
  rw [after_of_not_isQuote h.not_isQuote, if_neg h.not_opening, if_pos h]

theorem after_quote (h : isQuote q = true) (n : Nat) : after ⟨none, n⟩ q = ⟨some q, n⟩ := by
  simp [after, Quote.after, Quote.isPlain, h]

theorem after_inside (q c : Char) (n : Nat) : after ⟨some q, n⟩ c = ⟨if c = q then none else some q, n⟩ := by
  simp [after, Quote.after, Quote.isPlain]

theorem afterText_inside (h : q ∉ content) (n : Nat) : afterText ⟨some q, n⟩ content = ⟨some q, n⟩ := by
  induction content with
  | nil => rfl
  | cons c rest ih =>
    obtain ⟨hc, hrest⟩ := not_or.mp (mt List.mem_cons.mpr h)
    rw [afterText_cons, after_inside, if_neg (Ne.symm hc), ih hrest]

theorem afterText_balanced (h : Balanced t) (n : Nat) : afterText ⟨none, n⟩ t = ⟨none, n⟩ := by
  induction h generalizing n with
  | nil => rfl
  | plain hquote hopening hclosing _ ih =>
    rw [afterText_cons, after_of_not_isQuote hquote, if_neg hopening, if_neg hclosing, ih]
  | literal hq hcontent _ ih =>
    rw [afterText_cons, after_quote hq, afterText_append, afterText_inside hcontent, afterText_cons, after_inside,
      if_pos rfl, ih]
  | brackets ho hc _ _ hinside ih =>
    rw [afterText_cons, after_opening ho, afterText_append, hinside, afterText_cons, after_closing hc,
      Nat.add_sub_cancel, ih]

theorem afterText_leaves (h : Leaves n t) : start.afterText t = ⟨none, n⟩ := by
  induction h with
  | balanced h => exact afterText_balanced h 0
  | closing _ hc hu ih => rw [afterText_append, ih, afterText_cons, after_closing hc, afterText_balanced hu]
  | opening _ ho hu ih => rw [afterText_append, ih, afterText_cons, after_opening ho, afterText_balanced hu]

/-- After any text the scan is outside of literals with some brackets open, or in a literal that has not
ended and before which they were. -/
theorem leaves_or_inside (t : Text) : (∃ n, Leaves n t) ∨ ∃ before q content n, t = before ++ q :: content ∧
    isQuote q = true ∧ q ∉ content ∧ Leaves n before := by
  -- `Leaves` says how a text ends, and so the induction takes the characters off the end.
  induction t using List.reverseRecOn with
  | nil => exact Or.inl ⟨0, .balanced .nil⟩
  | append_singleton t c ih =>
    rcases ih with ⟨n, hleaves⟩ | ⟨before, q, content, n, rfl, hq, hcontent, hleaves⟩
    · by_cases hquote : isQuote c = true
      · exact Or.inr ⟨t, c, [], n, rfl, hquote, List.not_mem_nil, hleaves⟩
      · by_cases hopening : Opening c
        · exact Or.inl ⟨n + 1, .opening hleaves hopening .nil⟩
        · by_cases hclosing : Closing c
          · exact Or.inl ⟨n - 1, hleaves.append_closing hclosing⟩
          · exact Or.inl ⟨n, hleaves.append (.plain (by simpa using hquote) hopening hclosing .nil)⟩
    · rw [List.append_assoc, List.cons_append]
      by_cases hc : c = q
      · subst hc
        exact Or.inl ⟨n, hleaves.append (.literal hq hcontent .nil)⟩
      · refine Or.inr ⟨before, q, content ++ [c], n, rfl, hq, ?_, hleaves⟩
        simp [hcontent, Ne.symm hc]

theorem afterText_eq_iff_leaves : start.afterText t = ⟨none, n⟩ ↔ Leaves n t := by
  refine ⟨fun h => ?_, afterText_leaves⟩
  rcases leaves_or_inside t with ⟨k, hleaves⟩ | ⟨before, q, content, k, rfl, hq, hcontent, hleaves⟩
  · rw [afterText_leaves hleaves] at h
    cases h
    exact hleaves
  · rw [afterText_append, afterText_leaves hleaves, afterText_cons, after_quote hq, afterText_inside hcontent] at h
    cases h

end Scan

end Brackets

end SnippetTutor.Arguments
