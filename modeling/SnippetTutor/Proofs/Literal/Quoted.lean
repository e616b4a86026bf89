import SnippetTutor.Proofs.Arguments.Cuts
import SnippetTutor.Proofs.Literal.Fault

/-! # Quoted literals

A literal is a text between two quotes of a kind that it does not hold. A text that can be unquoted is
such a literal and nothing else, so that one literal is never taken for another and a longer text never
for a single literal. Every scan of a line passes over a literal as a whole: no comment starts in it,
and no argument ends in it.
-/
namespace SnippetTutor

namespace Text
variable {c q : Char} {name : Text}

theorem isBlank_of_isQuote (h : isQuote q = true) : isBlank q = false := by
  simp only [isQuote, Bool.or_eq_true, decide_eq_true_eq] at h
  rcases h with rfl | rfl <;> decide

theorem toNat_of_isNameStart (h : isNameStart c = true) : 65 ≤ c.toNat ∧ c.toNat ≤ 122 := by
  simp only [isNameStart, isLetter, Bool.or_eq_true, Bool.and_eq_true, decide_eq_true_eq, beq_iff_eq] at h
  rcases h with (⟨hlow, hhigh⟩ | ⟨hlow, hhigh⟩) | rfl
  · have hfirst : 97 ≤ c.toNat := hlow
    have hlast : c.toNat ≤ 122 := hhigh
    omega
  · have hfirst : 65 ≤ c.toNat := hlow
    have hlast : c.toNat ≤ 90 := hhigh
    omega
  · decide

/-- Of the first characters only the ten usual digits are digits. -/
theorem digit?_eq_none (hascii : c.toNat < 128) (h : c.toNat < 48 ∨ 57 < c.toNat) : digit? c = none := by
  have hzeros : ∀ first ∈ digitZeros, first = 48 ∨ 128 ≤ first := by decide
  rw [digit?, Option.map_eq_none_iff, List.find?_eq_none]
  intro first hfirst
  simp only [Bool.and_eq_true, decide_eq_true_eq]
  have hzero := hzeros first hfirst
  omega

end Text

namespace Literal
open Text
variable {q : Char} {s t name : Text} {memory : Memory}

/-- The literal of a text in the quotes of a kind. -/
def inQuotes (q : Char) (s : Text) : Text := q :: (s ++ [q])

/-- The text can be the content of a literal in these quotes. -/
def Quotable (q : Char) (s : Text) : Prop := isQuote q = true ∧ q ∉ s

instance (q : Char) (s : Text) : Decidable (Quotable q s) := inferInstanceAs (Decidable (_ ∧ _))

theorem trim_inQuotes (h : isQuote q = true) (s : Text) : trim (inQuotes q s) = inQuotes q s := by
  have hlast : (inQuotes q s).getLast? = some q := by
    rw [inQuotes, ← List.cons_append, List.getLast?_concat]
  exact trim_of_ends rfl (isBlank_of_isQuote h) hlast (isBlank_of_isQuote h)

/-- A literal ends at the first quote of its kind. -/
theorem unquote?_eq_some_iff : unquote? t = some s ↔ ∃ q, Quotable q s ∧ trim t = inQuotes q s := by
  constructor
  · intro h
    unfold unquote? at h
    split at h
    · cases h
    · next q rest htrim =>
      simp only [Option.ite_none_right_eq_some, Option.some.injEq] at h
      obtain ⟨⟨hquote, hclosed⟩, rfl⟩ := h
      refine ⟨q, ⟨hquote, fun hmem => ?_⟩, ?_⟩
      · simpa using List.mem_takeWhile_imp hmem
      · rw [htrim, inQuotes, ← hclosed, List.takeWhile_append_dropWhile]
  · rintro ⟨q, ⟨hquote, hs⟩, htrim⟩
    have hother : ∀ c ∈ s, decide (c ≠ q) = true := fun c hc => decide_eq_true (ne_of_mem_of_not_mem hc hs)
    have hstop : [q].takeWhile (· ≠ q) = [] ∧ [q].dropWhile (· ≠ q) = [q] := by simp
    rw [unquote?, htrim, inQuotes]
    simp only [List.dropWhile_append_of_pos hother, List.takeWhile_append_of_pos hother, hstop, hquote, and_self,
      if_true, List.append_nil]

theorem unquote?_inQuotes (h : Quotable q s) : unquote? (inQuotes q s) = some s :=
  unquote?_eq_some_iff.mpr ⟨q, h, trim_inQuotes h.1 s⟩

/-- Where the quote in front stands again before the end, the text is more than one literal. -/
theorem unquote?_of_longer (htrim : trim (inQuotes q s ++ t) = inQuotes q s ++ t) (ht : t ≠ []) :
    unquote? (inQuotes q s ++ t) = none := by
  rw [Option.eq_none_iff_forall_ne_some]
  intro content hcontent
  obtain ⟨q', ⟨-, hq'⟩, hsame⟩ := unquote?_eq_some_iff.mp hcontent
  rw [htrim, inQuotes, inQuotes, List.cons_append, List.cons.injEq, List.append_assoc, List.singleton_append] at hsame
  obtain ⟨rfl, hsame⟩ := hsame
  rcases List.append_eq_append_iff.mp hsame with ⟨more, hmore, hend⟩ | ⟨more, hmore, hend⟩
  · cases more with
    | nil => exact ht (List.cons.inj hend).2
    | cons c rest =>
      obtain rfl := (List.cons.inj hend).1
      exact hq' (by rw [hmore]; simp)
  · cases more with
    | nil => exact ht (List.cons.inj hend).2.symm
    | cons c rest => exact absurd (congrArg List.length hend) (by simp)

theorem coerce_inQuotes (h : Quotable q s) (memory : Memory) : coerce memory (inQuotes q s) = .ok (.text s) := by
  simp only [coerce, trim_inQuotes h.1, scalar?, unquote?_inQuotes h]
  rfl

/-! ## Tokens that start with a quote or a name -/

/-- Neither a sign nor a point nor a digit. -/
def StartsNoNumber (c : Char) : Prop := c ≠ '+' ∧ c ≠ '-' ∧ c ≠ '.' ∧ digit? c = none

theorem startsNoNumber_of_isQuote (h : isQuote q = true) : StartsNoNumber q := by
  simp only [isQuote, Bool.or_eq_true, decide_eq_true_eq] at h
  rcases h with rfl | rfl
  · exact ⟨by decide, by decide, by decide, digit?_eq_none (by decide) (by decide)⟩
  · exact ⟨by decide, by decide, by decide, digit?_eq_none (by decide) (by decide)⟩

theorem startsNoNumber_of_isNameStart {c : Char} (h : isNameStart c = true) : StartsNoNumber c := by
  obtain ⟨hlow, hhigh⟩ := toNat_of_isNameStart h
  refine ⟨ne_of_class h (by decide), ne_of_class h (by decide), ne_of_class h (by decide), ?_⟩
  exact digit?_eq_none (by omega) (by omega)

theorem number?_of_startsNoNumber {c : Char} (htrim : trim (c :: t) = c :: t) (h : StartsNoNumber c) :
    number? (c :: t) = none := by
  obtain ⟨hplus, hminus, hpoint, hdigit⟩ := h
  have hsign : Decimal.signOf (c :: t) = (none, c :: t) := by
    unfold Decimal.signOf
    split <;> simp_all
  have hdigits : Decimal.digitsOf digit? (c :: t) = ([], c :: t) := by
    rw [Decimal.digitsOf, hdigit]
  have hfraction : Decimal.fractionOf digit? (c :: t) = (none, c :: t) := by
    unfold Decimal.fractionOf
    split <;> simp_all
  have hread : ∀ d ∈ Decimal.read? digit? (c :: t), d.hasDigits = false := by
    intro d hd
    simp only [Decimal.read?, hsign, hdigits, hfraction, Option.mem_def, Option.map_eq_some_iff] at hd
    obtain ⟨exponent, -, rfl⟩ := hd
    rfl
  rw [number?, htrim, Number.ofToken?, Option.map_eq_none_iff, Option.filter_eq_none_iff]
  intro d hd
  rw [hread d hd]
  exact Bool.false_ne_true

theorem unquote?_of_not_isQuote {c : Char} (htrim : trim (c :: t) = c :: t) (h : isQuote c = false) :
    unquote? (c :: t) = none := by
  rw [unquote?, htrim]
  exact if_neg fun hquoted => Bool.false_ne_true (h.symm.trans hquoted.1)

theorem not_isQuote_of_isNameStart {c : Char} (h : isNameStart c = true) : isQuote c = false := by
  have hsingle : c ≠ '\'' := ne_of_class h (by decide)
  have hdouble : c ≠ '"' := ne_of_class h (by decide)
  simp [isQuote, hsingle, hdouble]

theorem unquote?_of_isName (h : IsName name) : unquote? name = none := by
  have htrim := trim_name h
  obtain ⟨c, rest, rfl, hc, -⟩ := h
  exact unquote?_of_not_isQuote htrim (not_isQuote_of_isNameStart hc)

theorem number?_of_isName (h : IsName name) : number? name = none := by
  have htrim := trim_name h
  obtain ⟨c, rest, rfl, hc, -⟩ := h
  exact number?_of_startsNoNumber htrim (startsNoNumber_of_isNameStart hc)

/-- The names of fixed values. -/
def keywords : List Text := ["True".toList, "False".toList, "None".toList]

theorem keyword?_eq_none_iff : keyword? t = none ↔ t ∉ keywords := by
  simp only [keyword?, keywords, List.mem_cons, List.not_mem_nil, or_false, not_or]
  split_ifs with htrue hfalse hnone
  · simp [htrue]
  · simp [hfalse]
  · simp [hnone]
  · exact iff_of_true rfl ⟨htrue, hfalse, hnone⟩

/-- The value of a keyword is fixed, and any other name stands for its variable, or for itself. -/
theorem coerce_of_isName (h : IsName name) (memory : Memory) : coerce memory name =
    .ok ((keyword? name).getD ((Fields.get? memory name).getD (.text name))) := by
  have hscalar : scalar? name = keyword? name := by simp [scalar?, unquote?_of_isName h, number?_of_isName h]
  have hhead : name.head? ≠ some '[' := by
    obtain ⟨c, rest, rfl, hc, -⟩ := h
    intro hbracket
    exact ne_of_class hc (by decide) (Option.some.inj hbracket)
  simp only [coerce, trim_name h, hscalar, if_neg hhead]
  cases keyword? name <;> rfl

end Literal

/-! ## Scans pass over a literal -/

section Scans
open Literal
variable {q : Char} {marker s t : Text}

theorem beforeMarker_inside (hs : q ∉ s) : beforeMarker marker (some q) (s ++ q :: t) =
    (beforeMarker marker none t).map (s ++ q :: ·) := by
  induction s with
  | nil => simp [beforeMarker, Quote.isPlain, Quote.after]
  | cons c rest ih =>
    obtain ⟨hc, hrest⟩ := not_or.mp (mt List.mem_cons.mpr hs)
    have hstays : Quote.after (some q) c = some q := if_neg (Ne.symm hc)
    rw [List.cons_append, beforeMarker, if_neg (by simp [Quote.isPlain]), hstays, ih hrest, Option.map_map]
    rfl

/-- No comment starts in a literal, whatever the marker is. -/
theorem beforeMarker_inQuotes (h : Quotable q s) (marker t : Text) : beforeMarker marker none (inQuotes q s ++ t) =
    (beforeMarker marker none t).map (inQuotes q s ++ ·) := by
  have hopens : Quote.after none q = some q := by simp [Quote.after, h.1]
  have hinside : beforeMarker marker (some q) (s ++ q :: t) = _ := beforeMarker_inside h.2
  rw [inQuotes, List.cons_append, beforeMarker, if_neg (by simp [Quote.isPlain, h.1]), hopens, List.append_assoc,
    List.singleton_append, hinside, Option.map_map]
  simp [Function.comp_def]

/-- A text without quotes that lacks the first letter of the marker. -/
theorem beforeMarker_append {c : Char} (hs : ∀ d ∈ s, isQuote d = false ∧ d ≠ c) (marker t : Text) :
    beforeMarker (c :: marker) none (s ++ t) = (beforeMarker (c :: marker) none t).map (s ++ ·) := by
  induction s with
  | nil => simp
  | cons d rest ih =>
    obtain ⟨⟨hquote, hd⟩, hrest⟩ := List.forall_mem_cons.mp hs
    have hstays : Quote.after none d = none := by simp [Quote.after, hquote]
    have hmarker : ¬ (Quote.isPlain none d = true ∧ (c :: marker).isPrefixOf (d :: (rest ++ t)) = true) := by
      simp [List.isPrefixOf, Ne.symm hd]
    rw [List.cons_append, beforeMarker, if_neg hmarker, hstays, ih hrest, Option.map_map]
    rfl

namespace Arguments

theorem closed_inQuotes (h : Quotable q s) : Closed (inQuotes q s) :=
  Scan.afterText_balanced (.literal h.1 h.2 .nil) 0

/-- A comma in a literal does not cut. -/
theorem uncut_inQuotes (h : Quotable q s) : Uncut (inQuotes q s) := by
  intro before after hsplit hclosed
  have hcomma : q ≠ ',' := by
    rintro rfl
    cases h.1
  cases before with
  | nil => exact hcomma (List.cons.inj hsplit).1
  | cons c rest =>
    obtain ⟨rfl, hcontent⟩ := List.cons.inj hsplit
    have hinside : q ∉ rest := by
      rcases List.append_eq_append_iff.mp hcontent with ⟨more, rfl, hend⟩ | ⟨more, hrest, hend⟩
      · cases more with
        | nil => simpa using h.2
        | cons d others => exact absurd (congrArg List.length hend) (by simp)
      · exact fun hmem => h.2 (by rw [hrest]; exact List.mem_append_left _ hmem)
    rw [Closed, Scan.start, Scan.afterText_cons, Scan.after_quote h.1, Scan.afterText_inside hinside] at hclosed
    cases hclosed

end Arguments

end Scans

end SnippetTutor
