import Mathlib.Data.List.Induction
import SnippetTutor.Proofs.Literal.Quoted

/-! # Where a comment starts

The quote scan of a line is outside of literals after exactly those texts in which every literal that
starts also ends; otherwise it is inside of the last literal, which has not ended yet. A comment starts at
the first place at which the scan is outside and the marker stands. The cut is never made in a literal, and
it leaves no such place behind, also where blanks go with the comment.
-/
namespace SnippetTutor
open Literal

namespace Text
variable {a t : Text}

theorem exists_trimRight (t : Text) : ∃ right, Blanks right ∧ t = trimRight t ++ right := by
  refine ⟨(t.reverse.takeWhile isBlank).reverse, fun c hc => List.mem_takeWhile_imp (List.mem_reverse.mp hc), ?_⟩
  rw [trimRight, ← List.reverse_append, List.takeWhile_append_dropWhile, List.reverse_reverse]

/-- What does not end in a blank is not touched when blanks after it are cut off. -/
theorem prefix_trimRight_of_prefix (ha : trimRight a = a) (h : a <+: t) : a <+: trimRight t := by
  rcases List.prefix_or_prefix_of_prefix h (prefix_trimRight t) with hshort | ⟨more, rfl⟩
  · exact hshort
  · obtain ⟨right, hright, ht⟩ := exists_trimRight t
    have hprefix : trimRight t ++ more <+: trimRight t ++ right := by rwa [← ht]
    have hmore : Blanks more := fun c hc => hright c (((List.prefix_append_right_inj _).mp hprefix).subset hc)
    rw [trimRight_append_blanks hmore, trimRight_trimRight] at ha
    rw [← ha]

end Text

/-- Texts in which every literal that starts also ends. -/
inductive Outside : Text → Prop
  | nil : Outside []
  | plain {t : Text} {c : Char} (ht : Outside t) (hc : isQuote c = false) : Outside (t ++ [c])
  | literal {t s : Text} {q : Char} (ht : Outside t) (hs : Quotable q s) : Outside (t ++ inQuotes q s)

theorem append_inQuotes (before : Text) (q : Char) (s : Text) :
    before ++ inQuotes q s = (before ++ q :: s) ++ [q] := by simp [inQuotes]

/-- The last literal of the text starts with this quote and does not end. -/
def Inside (q : Char) (t : Text) : Prop := ∃ before s, Outside before ∧ Quotable q s ∧ t = before ++ q :: s

section Scan
variable {c q : Char} {s t before first : Text}

@[simp] theorem Quote.afterText_nil (quote : Quote) : quote.afterText [] = quote := rfl

@[simp] theorem Quote.afterText_cons (quote : Quote) (c : Char) (t : Text) :
    quote.afterText (c :: t) = (quote.after c).afterText t := rfl

theorem Quote.afterText_append (quote : Quote) (s t : Text) :
    quote.afterText (s ++ t) = (quote.afterText s).afterText t := List.foldl_append

theorem Quote.afterText_inside (hs : q ∉ s) : Quote.afterText (some q) s = some q := by
  induction s with
  | nil => rfl
  | cons c rest ih =>
    obtain ⟨hc, hrest⟩ := not_or.mp (mt List.mem_cons.mpr hs)
    have hstays : Quote.after (some q) c = some q := if_neg (Ne.symm hc)
    rw [Quote.afterText_cons, hstays, ih hrest]

theorem Quote.afterText_open (h : Quotable q s) : Quote.afterText none (q :: s) = some q := by
  have hopens : Quote.after none q = some q := by simp [Quote.after, h.1]
  rw [Quote.afterText_cons, hopens, Quote.afterText_inside h.2]

theorem Outside.afterText (h : Outside t) : Quote.afterText none t = none := by
  induction h with
  | nil => rfl
  | plain _ hc ih =>
    rw [Quote.afterText_append, ih]
    simp [Quote.after, hc]
  | literal _ hs ih =>
    rw [append_inQuotes, Quote.afterText_append, Quote.afterText_append, ih, Quote.afterText_open hs]
    simp [Quote.after]

theorem Inside.afterText (h : Inside q t) : Quote.afterText none t = some q := by
  obtain ⟨before, s, hbefore, hs, rfl⟩ := h
  rw [Quote.afterText_append, hbefore.afterText, Quote.afterText_open hs]

/-- After any text the scan is outside, or inside of a literal that has not ended. -/
theorem outside_or_inside (t : Text) : Outside t ∨ ∃ q, Inside q t := by
  -- Both say how a text ends, and so the induction takes the characters off the end.
  induction t using List.reverseRecOn with
  | nil => exact Or.inl .nil
  | append_singleton t c ih =>
    rcases ih with houtside | ⟨q, before, s, hbefore, hs, rfl⟩
    · cases hc : isQuote c with
      | false => exact Or.inl (.plain houtside hc)
      | true => exact Or.inr ⟨c, t, [], houtside, ⟨hc, List.not_mem_nil⟩, rfl⟩
    · by_cases hc : c = q
      · subst hc
        exact Or.inl (append_inQuotes before c s ▸ hbefore.literal hs)
      · refine Or.inr ⟨q, before, s ++ [c], hbefore, ⟨hs.1, ?_⟩, by simp⟩
        simp [hs.2, Ne.symm hc]

theorem afterText_eq_none_iff : Quote.afterText none t = none ↔ Outside t := by
  refine ⟨fun h => ?_, Outside.afterText⟩
  rcases outside_or_inside t with houtside | ⟨q, hinside⟩
  · exact houtside
  · rw [hinside.afterText] at h
    cases h

theorem afterText_eq_some_iff : Quote.afterText none t = some q ↔ Inside q t := by
  refine ⟨fun h => ?_, Inside.afterText⟩
  rcases outside_or_inside t with houtside | ⟨q', hinside⟩
  · rw [houtside.afterText] at h
    cases h
  · rw [hinside.afterText, Option.some.injEq] at h
    exact h ▸ hinside

/-- A text that ends outside does not end in a literal that has started. -/
theorem Outside.prefix_of_open (hfirst : Outside first) (hbefore : Outside before) (hs : Quotable q s)
    (h : first <+: before ++ q :: s) : first <+: before := by
  rcases List.prefix_or_prefix_of_prefix h (List.prefix_append before (q :: s)) with hshort | ⟨more, rfl⟩
  · exact hshort
  · have hmore : more <+: q :: s := (List.prefix_append_right_inj before).mp h
    cases more with
    | nil => rw [List.append_nil]
    | cons c rest =>
      obtain ⟨rfl, hrest⟩ := List.cons_prefix_cons.mp hmore
      have hinside : Inside c (before ++ c :: rest) :=
        ⟨before, rest, hbefore, ⟨hs.1, fun hmem => hs.2 (hrest.subset hmem)⟩, rfl⟩
      have hscan := hfirst.afterText
      rw [hinside.afterText] at hscan
      cases hscan

theorem Outside.prefix_of_literal (hfirst : Outside first) (hbefore : Outside before) (hs : Quotable q s)
    (h : first <+: before ++ inQuotes q s) : first <+: before ∨ first = before ++ inQuotes q s := by
  rw [append_inQuotes, List.prefix_concat_iff, ← append_inQuotes] at h
  exact h.symm.imp_left fun h => hfirst.prefix_of_open hbefore hs h

end Scan

section Markers
variable {marker line t before kept other : Text} {quote : Quote} {c : Char}

/-- The marker stands in the line after the first text, where the scan is outside of literals. -/
def MarkerAfter (marker line before : Text) : Prop := before ++ marker <+: line ∧ Outside before

/-- No such place is earlier. -/
def FirstMarker (marker line before : Text) : Prop :=
  MarkerAfter marker line before ∧ ∀ other, MarkerAfter marker line other → before.length ≤ other.length

theorem MarkerAfter.isPrefix (h : MarkerAfter marker line before) : before <+: line :=
  (List.prefix_append before marker).trans h.1

theorem beforeMarker_spec (h : beforeMarker marker quote t = some kept) :
    kept ++ marker <+: t ∧ quote.afterText kept = none := by
  induction t generalizing quote kept with
  | nil => cases h
  | cons c rest ih =>
    rw [beforeMarker] at h
    split at h
    · next hstarts =>
      cases h
      have hnone : quote = none := by
        have hplain := hstarts.1
        simp only [Quote.isPlain, Bool.and_eq_true, Option.isNone_iff_eq_none] at hplain
        exact hplain.1
      exact ⟨List.isPrefixOf_iff_prefix.mp hstarts.2, hnone⟩
    · obtain ⟨more, hmore, rfl⟩ := Option.map_eq_some_iff.mp h
      obtain ⟨hmarker, hscan⟩ := ih hmore
      exact ⟨List.cons_prefix_cons.mpr ⟨rfl, hmarker⟩, hscan⟩

/-- A marker outside of literals is found, unless one that starts earlier is. -/
theorem exists_beforeMarker (hc : isQuote c = false) (h : before ++ c :: marker <+: t)
    (hquote : quote.afterText before = none) :
    ∃ kept, beforeMarker (c :: marker) quote t = some kept ∧ kept <+: before := by
  -- The text before the marker is what the search has to go through, in the state that it has come to.
  induction before generalizing quote t with
  | nil =>
    obtain ⟨rest, rfl⟩ := h
    obtain rfl : quote = none := hquote
    refine ⟨[], ?_, List.nil_prefix⟩
    rw [List.nil_append, List.cons_append, beforeMarker, if_pos]
    exact ⟨by simp [Quote.isPlain, hc], by simp [List.isPrefixOf_iff_prefix]⟩
  | cons d before ih =>
    cases t with
    | nil => cases List.prefix_nil.mp h
    | cons e rest =>
      obtain ⟨rfl, hrest⟩ := List.cons_prefix_cons.mp h
      rw [beforeMarker]
      split
      · exact ⟨[], rfl, List.nil_prefix⟩
      · obtain ⟨kept, hkept, hprefix⟩ := ih hrest hquote
        exact ⟨d :: kept, by rw [hkept, Option.map_some], List.cons_prefix_cons.mpr ⟨rfl, hprefix⟩⟩

theorem beforeMarker_eq_some_iff (hc : isQuote c = false) :
    beforeMarker (c :: marker) none line = some kept ↔ FirstMarker (c :: marker) line kept := by
  have hfound : ∀ {kept}, beforeMarker (c :: marker) none line = some kept → MarkerAfter (c :: marker) line kept :=
    fun h => ⟨(beforeMarker_spec h).1, afterText_eq_none_iff.mp (beforeMarker_spec h).2⟩
  constructor
  · refine fun h => ⟨hfound h, fun other hother => ?_⟩
    obtain ⟨first, hfirst, hprefix⟩ := exists_beforeMarker hc hother.1 hother.2.afterText
    rw [h, Option.some.injEq] at hfirst
    exact (hfirst ▸ hprefix).length_le
  · rintro ⟨hkept, hleast⟩
    obtain ⟨first, hfirst, hprefix⟩ := exists_beforeMarker hc hkept.1 hkept.2.afterText
    rw [hfirst, hprefix.eq_of_length_le (hleast first (hfound hfirst))]

theorem beforeMarker_eq_none_iff (hc : isQuote c = false) :
    beforeMarker (c :: marker) none line = none ↔ ∀ before, ¬ MarkerAfter (c :: marker) line before := by
  constructor
  · intro h before hbefore
    obtain ⟨first, hfirst, -⟩ := exists_beforeMarker hc hbefore.1 hbefore.2.afterText
    rw [h] at hfirst
    cases hfirst
  · intro h
    rw [Option.eq_none_iff_forall_ne_some]
    exact fun kept hkept => h kept ((beforeMarker_eq_some_iff hc).mp hkept).1

end Markers

section Cut
variable {marker line before s first : Text} {c q : Char}

/-- The cut is made at the first marker outside of literals, and only there. -/
theorem uncomment_cases (hc : isQuote c = false) (marker line : Text) :
    (∃ before, FirstMarker (c :: marker) line before ∧ uncomment (c :: marker) line = Text.trimRight before) ∨
      (∀ before, ¬ MarkerAfter (c :: marker) line before) ∧ uncomment (c :: marker) line = line := by
  cases hkept : beforeMarker (c :: marker) none line with
  | some kept => exact Or.inl ⟨kept, (beforeMarker_eq_some_iff hc).mp hkept, by simp only [uncomment, hkept]⟩
  | none => exact Or.inr ⟨(beforeMarker_eq_none_iff hc).mp hkept, by simp only [uncomment, hkept]⟩

theorem not_markerAfter_uncomment (hc : isQuote c = false) (marker line before : Text) :
    ¬ MarkerAfter (c :: marker) (uncomment (c :: marker) line) before := by
  refine (beforeMarker_eq_none_iff hc).mp ?_ before
  cases hkept : beforeMarker (c :: marker) none line with
  | none => simp only [uncomment, hkept]
  | some kept =>
    simp only [uncomment, hkept]
    exact beforeMarker_eq_none_of_prefix hkept (Text.prefix_trimRight kept)

theorem trimRight_append_inQuotes (h : Quotable q s) (before : Text) :
    Text.trimRight (before ++ inQuotes q s) = before ++ inQuotes q s := by
  rw [append_inQuotes, Text.trimRight_eq_self_iff]
  intro _
  rw [List.getLast_concat]
  exact Text.isBlank_of_isQuote h.1

/-- A literal that ends is kept as a whole, or the cut is made before it. -/
theorem literal_of_uncomment (hc : isQuote c = false) (hbefore : Outside before) (hs : Quotable q s)
    (h : before ++ inQuotes q s <+: line) :
    uncomment (c :: marker) line <+: before ∨ before ++ inQuotes q s <+: uncomment (c :: marker) line := by
  rcases uncomment_cases hc marker line with ⟨first, ⟨hmarker, -⟩, huncomment⟩ | ⟨-, huncomment⟩
  · rw [huncomment]
    have hliteral : before ++ inQuotes q s <+: first → before ++ inQuotes q s <+: Text.trimRight first :=
      Text.prefix_trimRight_of_prefix (trimRight_append_inQuotes hs before)
    rcases List.prefix_or_prefix_of_prefix hmarker.isPrefix h with hshort | hlong
    · rcases hmarker.2.prefix_of_literal hbefore hs hshort with hearly | hsame
      · exact Or.inl ((Text.prefix_trimRight first).trans hearly)
      · exact Or.inr (hliteral (hsame ▸ List.prefix_rfl))
    · exact Or.inr (hliteral hlong)
  · rw [huncomment]
    exact Or.inr h

/-- A literal that stays open to the end of the line is kept as it is, or the cut is made before it. -/
theorem open_literal_of_uncomment (hc : isQuote c = false) (hbefore : Outside before) (hs : Quotable q s)
    (h : line = before ++ q :: s) :
    uncomment (c :: marker) line <+: before ∨ uncomment (c :: marker) line = line := by
  rcases uncomment_cases hc marker line with ⟨first, ⟨hmarker, -⟩, huncomment⟩ | ⟨-, huncomment⟩
  · have hline : first <+: before ++ q :: s := h ▸ hmarker.isPrefix
    rw [huncomment]
    exact Or.inl ((Text.prefix_trimRight first).trans (hmarker.2.prefix_of_open hbefore hs hline))
  · exact Or.inr huncomment

end Cut

/-- The quote scan is outside after the texts in which every literal ends, and after all others inside of
the one that is open. For any marker that is not empty and does not start with a quote: if the marker stands
somewhere in the line where the scan is outside, the line is cut at the first such place and trimmed at the
end, and otherwise it stays as it is. What is left is a prefix of the line, has no such place, and is not
cut again. A literal is kept as a whole, whether it ends or stays open, unless the cut is made before it. -/
theorem uncomment_cuts_first_marker {marker : Text} (hmarker : ∃ c more, marker = c :: more ∧ isQuote c = false)
    (line : Text) :
    (∀ t, (Quote.afterText none t = none ↔ Outside t) ∧ ∀ q, Quote.afterText none t = some q ↔ Inside q t) ∧
    ((∃ before, FirstMarker marker line before ∧ uncomment marker line = Text.trimRight before) ∨
      (∀ before, ¬ MarkerAfter marker line before) ∧ uncomment marker line = line) ∧
    uncomment marker line <+: line ∧
    (∀ before, ¬ MarkerAfter marker (uncomment marker line) before) ∧
    uncomment marker (uncomment marker line) = uncomment marker line ∧
    ∀ before q s, Outside before → Quotable q s →
      (before ++ inQuotes q s <+: line →
        uncomment marker line <+: before ∨ before ++ inQuotes q s <+: uncomment marker line) ∧
      (line = before ++ q :: s → uncomment marker line <+: before ∨ uncomment marker line = line) := by
  obtain ⟨c, more, rfl, hc⟩ := hmarker
  refine ⟨fun t => ⟨afterText_eq_none_iff, fun q => afterText_eq_some_iff⟩, uncomment_cases hc more line,
    prefix_uncomment _ line, not_markerAfter_uncomment hc more line, uncomment_uncomment _ line,
    fun before q s hbefore hs => ⟨?_, ?_⟩⟩
  · exact literal_of_uncomment hc hbefore hs
  · exact open_literal_of_uncomment hc hbefore hs

/-- Each kind of quotes around the other, a single letter of the marker, and a comment with quotes. -/
def crossQuoted : Text := "print(\"it's // 1\", 'a \"//\" b') /  // \"2 // ' 3".toList

/-- A literal that stays open, with the marker in it. -/
def unended : Text := "x = 'a // \"b\" ".toList

theorem uncomment_cuts_first_marker_nested :
    (∃ c more, "//".toList = c :: more ∧ isQuote c = false) ∧
    (∃ before, FirstMarker "//".toList crossQuoted before ∧
      Text.trimRight before = "print(\"it's // 1\", 'a \"//\" b') /".toList) ∧
    "print(\"it's // 1\"".toList <+: uncomment "//".toList crossQuoted ∧
    (∀ before, ¬ MarkerAfter "//".toList unended before) ∧ uncomment "//".toList unended = unended := by
  have hmarker : ∃ c more, "//".toList = c :: more ∧ isQuote c = false := ⟨'/', ['/'], rfl, rfl⟩
  have hcut : uncomment "//".toList crossQuoted = "print(\"it's // 1\", 'a \"//\" b') /".toList := by decide +kernel
  have hkept : uncomment "//".toList unended = unended := by decide +kernel
  obtain ⟨hscan, hplace, -, -, -, hliteral⟩ := uncomment_cuts_first_marker hmarker crossQuoted
  obtain ⟨-, -, -, hnone, -, -⟩ := uncomment_cuts_first_marker hmarker unended
  rw [hkept] at hnone
  have hbefore : Outside "print(".toList := (hscan _).1.mp (by decide)
  refine ⟨hmarker, ?_, ?_, hnone, hkept⟩
  · rcases hplace with ⟨before, hfirst, hbefore⟩ | ⟨-, hwhole⟩
    · exact ⟨before, hfirst, hbefore.symm.trans hcut⟩
    · exact absurd (hcut.symm.trans hwhole) (by decide +kernel)
  · rcases (hliteral _ '"' "it's // 1".toList hbefore (by decide)).1 (by decide +kernel) with hearly | hwhole
    · exact absurd (hcut ▸ hearly) (by decide +kernel)
    · exact hwhole

end SnippetTutor
