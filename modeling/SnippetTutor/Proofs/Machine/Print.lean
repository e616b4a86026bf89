import Mathlib.Data.List.Forall2
import SnippetTutor.Machine.Print
import SnippetTutor.Proofs.Literal.Quoted

/-! # What a print statement shows

The argument of a print statement is read as a literal first and as a name next, and only then as a sum.
A sum of literals and known names is read as neither, whatever quotes its literals have, and it shows its
parts one after another.
-/
namespace SnippetTutor.Print
open Literal Text

variable {memory : Memory} {part content name : Text} {parts shown : List Text} {value : Value}

theorem text_inQuotes {q : Char} (h : Quotable q content) (memory : Memory) :
    text memory (inQuotes q content) = content := by
  have hempty : (inQuotes q content).isEmpty = false := rfl
  simp only [text, hempty, unquote?_inQuotes h, Bool.false_eq_true, if_false]

theorem text_of_isName (h : IsName name) (hvalue : Fields.get? memory name = some value) :
    text memory name = value.display := by
  have hempty : name.isEmpty = false := by
    obtain ⟨c, rest, rfl, -⟩ := h
    rfl
  simp only [text, hempty, unquote?_of_isName h, hvalue, Bool.false_eq_true, if_false]

/-- A part of a sum and what it shows: a literal without a plus sign shows its content, and a known name
its value. -/
inductive Addend (memory : Memory) : Text → Text → Prop
  | literal {q : Char} {content : Text} (h : Quotable q content) (hplus : '+' ∉ content) :
      Addend memory (inQuotes q content) content
  | name {name : Text} {value : Value} (h : IsName name) (hvalue : Fields.get? memory name = some value) :
      Addend memory name value.display

/-- The sum, as it is written. -/
def sumText (parts : List Text) : Text := joinWith " + ".toList parts

theorem Addend.trim_eq (h : Addend memory part content) : trim part = part := by
  cases h with
  | literal h _ => exact trim_inQuotes h.1 content
  | name h _ => exact trim_name h

theorem Addend.plus_not_mem (h : Addend memory part content) : '+' ∉ part := by
  cases h with
  | @literal q _ h hplus =>
    have hquote : '+' ≠ q := by
      rintro rfl
      cases h.1
    simp [inQuotes, hquote, hplus]
  | name h _ => exact not_mem_of_isName (by decide) (by decide) h

theorem Addend.part_eq (h : Addend memory part content) : Print.part memory part = content := by
  cases h with
  | literal h _ => simp only [Print.part, unquote?_inQuotes h]
  | name h hvalue => simp only [Print.part, unquote?_of_isName h, hvalue]

/-- No number starts like a part. -/
theorem Addend.starts (h : Addend memory part content) : ∃ c rest, part = c :: rest ∧ StartsNoNumber c := by
  cases h with
  | @literal q _ h _ => exact ⟨q, _, rfl, startsNoNumber_of_isQuote h.1⟩
  | name h _ =>
    obtain ⟨c, rest, rfl, hc, -⟩ := h
    exact ⟨c, rest, rfl, startsNoNumber_of_isNameStart hc⟩

theorem Addend.ne_nil (h : Addend memory part content) : part ≠ [] := by
  obtain ⟨c, rest, rfl, -⟩ := h.starts
  exact List.cons_ne_nil c rest

theorem sumText_cons_cons (first second : Text) (rest : List Text) :
    sumText (first :: second :: rest) = (first ++ [' ']) ++ '+' :: ' ' :: sumText (second :: rest) := by
  rw [sumText, joinWith_cons_cons, sumText]
  simp

theorem plus_mem_sumText (first second : Text) (rest : List Text) : '+' ∈ sumText (first :: second :: rest) := by
  rw [sumText_cons_cons]
  simp

theorem map_trim_consHead_space {pieces : List Text} (h : pieces ≠ []) :
    (consHead ' ' pieces).map trim = pieces.map trim := by
  obtain ⟨piece, rest, rfl⟩ := List.exists_cons_of_ne_nil h
  rw [consHead, List.map_cons, Arguments.trim_space_cons, List.map_cons]

/-- A sum is taken apart where its parts were put together. -/
theorem map_trim_splitOn_sumText (h : List.Forall₂ (Addend memory) parts shown) (hne : parts ≠ []) :
    (splitOn '+' (sumText parts)).map trim = parts := by
  induction h with
  | nil => exact absurd rfl hne
  | @cons first _ rest _ hfirst hrest ih =>
    have hpad : '+' ∉ first ++ [' '] := by simp [hfirst.plus_not_mem]
    have htrim : trim (first ++ [' ']) = first := by
      rw [trim_append_blanks (by decide : Blanks [' ']), hfirst.trim_eq]
    -- The blank after a plus sign goes to the next part, and the one before it stays with this part.
    cases rest with
    | nil =>
      rw [sumText, joinWith_singleton, splitOn_of_not_mem '+' hfirst.plus_not_mem, List.map_singleton, hfirst.trim_eq]
    | cons second more =>
      have hspace : splitOn '+' (' ' :: sumText (second :: more)) =
          consHead ' ' (splitOn '+' (sumText (second :: more))) := if_neg (by decide)
      rw [sumText_cons_cons, splitOn_append, splitOn_of_not_mem '+' hpad, hspace, List.map_append, List.map_singleton,
        htrim, map_trim_consHead_space (splitOn_ne_nil '+' _), ih (List.cons_ne_nil second more), List.singleton_append]

theorem sum_sumText (h : List.Forall₂ (Addend memory) parts shown) (hne : parts ≠ []) :
    sum memory (sumText parts) = shown.flatten := by
  have hparts : parts.flatMap (part memory) = shown.flatten := by
    clear hne
    induction h with
    | nil => rfl
    | cons hfirst _ ih => rw [List.flatMap_cons, List.flatten_cons, hfirst.part_eq, ih]
  calc sum memory (sumText parts) = ((splitOn '+' (sumText parts)).map trim).flatMap (part memory) := by
        rw [sum, List.flatMap_map]
    _ = parts.flatMap (part memory) := by rw [map_trim_splitOn_sumText h hne]
    _ = shown.flatten := hparts

theorem sumText_ne_nil (h : Addend memory part content) (rest : List Text) : sumText (part :: rest) ≠ [] := by
  cases rest with
  | nil =>
    rw [sumText, joinWith_singleton]
    exact h.ne_nil
  | cons second more =>
    rw [sumText_cons_cons]
    simp

theorem trim_sumText (h : List.Forall₂ (Addend memory) parts shown) : trim (sumText parts) = sumText parts := by
  induction h with
  | nil => rfl
  | @cons first _ rest _ hfirst hrest ih =>
    cases hrest with
    | nil =>
      rw [sumText, joinWith_singleton]
      exact hfirst.trim_eq
    | cons hsecond _ =>
      have hbetween := trim_between hfirst.trim_eq hfirst.ne_nil ih (sumText_ne_nil hsecond _) " + ".toList
      rw [sumText_cons_cons]
      simpa using hbetween

/-- A sum begins like its first part, and is more than that. -/
theorem scalar?_sumText {first second : Text} {rest : List Text}
    (h : List.Forall₂ (Addend memory) (first :: second :: rest) shown) :
    scalar? (sumText (first :: second :: rest)) = none := by
  have htrim := trim_sumText h
  have hkeyword : keyword? (sumText (first :: second :: rest)) = none := by
    have hwords : ∀ word ∈ keywords, '+' ∉ word := by decide
    exact keyword?_eq_none_iff.mpr fun hmem => hwords _ hmem (plus_mem_sumText first second rest)
  rw [sumText_cons_cons, List.append_assoc] at htrim hkeyword ⊢
  cases h with
  | cons hfirst _ =>
    have hunquote : unquote? (first ++ ([' '] ++ '+' :: ' ' :: sumText (second :: rest))) = none := by
      cases hfirst with
      | literal hquotable _ => exact unquote?_of_longer htrim (List.cons_ne_nil _ _)
      | name hname _ =>
        obtain ⟨c, more, rfl, hc, -⟩ := hname
        exact unquote?_of_not_isQuote htrim (not_isQuote_of_isNameStart hc)
    have hnumber : number? (first ++ ([' '] ++ '+' :: ' ' :: sumText (second :: rest))) = none := by
      obtain ⟨c, more, rfl, hc⟩ := hfirst.starts
      exact number?_of_startsNoNumber htrim hc
    rw [scalar?, hunquote, hnumber, hkeyword]
    rfl

/-- Several literals and known names that are joined by plus signs are read as a sum, and not as a single
literal, a number, a keyword or a name that is not known: what is shown is the content of the literals and
the values of the names, one after another. The text as a whole must be no known name, for that comes
first. -/
theorem sum_concatenates {memory : Memory} {parts shown : List Text}
    (h : List.Forall₂ (Addend memory) parts shown) (hseveral : 2 ≤ parts.length)
    (hfree : Fields.get? memory (sumText parts) = none) :
    text memory (sumText parts) = shown.flatten ∧
      text memory (sumText parts) = sum memory (sumText parts) ∧ scalar? (sumText parts) = none := by
  match parts, h with
  | first :: second :: rest, h =>
    have hscalar := scalar?_sumText h
    have hsum := sum_sumText h (List.cons_ne_nil first _)
    have hunquote : unquote? (sumText (first :: second :: rest)) = none := by
      cases hquoted : unquote? (sumText (first :: second :: rest)) with
      | none => rfl
      | some content => simp [scalar?, hquoted] at hscalar
    have hplus := plus_mem_sumText first second rest
    have hempty : (sumText (first :: second :: rest)).isEmpty = false :=
      List.isEmpty_eq_false_iff.mpr (List.ne_nil_of_mem hplus)
    have htext : text memory (sumText (first :: second :: rest)) = sum memory (sumText (first :: second :: rest)) := by
      simp only [text, hempty, hunquote, hfree, hplus, Bool.false_eq_true, if_false, if_true]
    exact ⟨htext.trans hsum, htext, hscalar⟩

/-- A text that has been assigned, and a list with a text in it. -/
def introduced : Memory :=
  [("name".toList, .text "Ada".toList), ("xs".toList, .list [.number .one, .text "+".toList])]

/-- Literals in both kinds of quotes, each of which holds quotes of the other kind, and names among them. -/
theorem sum_concatenates_mixed :
    2 ≤ ["\"it's \"".toList, "name".toList, "', \"'".toList, "xs".toList].length ∧
    Fields.get? introduced "\"it's \" + name + ', \"' + xs".toList = none ∧
    text introduced "\"it's \" + name + ', \"' + xs".toList = "it's Ada, \"[1, '+']".toList := by
  have hname : IsName "name".toList := ⟨'n', "ame".toList, by decide, by decide, by decide +kernel⟩
  have hxs : IsName "xs".toList := ⟨'x', ['s'], by decide, by decide, by decide +kernel⟩
  have hparts : List.Forall₂ (Addend introduced)
      [inQuotes '"' "it's ".toList, "name".toList, inQuotes '\'' ", \"".toList, "xs".toList]
      ["it's ".toList, (Value.text "Ada".toList).display, ", \"".toList,
        (Value.list [.number .one, .text "+".toList]).display] :=
    .cons (.literal (by decide) (by decide)) (.cons (.name hname (by decide +kernel))
      (.cons (.literal (by decide) (by decide)) (.cons (.name hxs (by decide +kernel)) .nil)))
  have hfree : Fields.get? introduced "\"it's \" + name + ', \"' + xs".toList = none := by decide +kernel
  exact ⟨by decide, hfree, (sum_concatenates hparts (by decide) hfree).1.trans (by decide +kernel)⟩

end SnippetTutor.Print
