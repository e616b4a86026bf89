import Mathlib.Data.List.DropRight
import SnippetTutor.Proofs.Statement.Indentation

/-! # The normal form of a line

A line is stored trimmed and without its comment. The cut leaves no marker outside quotes,
so that the stored text is read as it stands when it is scanned again, whatever the marker
is: it is neither skipped nor indented, and nothing more is cut off it.
-/
namespace SnippetTutor

namespace Text
variable {c : Char}

theorem prefix_trimRight (t : Text) : trimRight t <+: t := List.rdropWhile_prefix isBlank t

theorem trimRight_trimRight (t : Text) : trimRight (trimRight t) = trimRight t :=
  List.rdropWhile_idempotent isBlank t

theorem trim_trimRight_cons (h : isBlank c = false) (rest : Text) :
    trim (trimRight (c :: rest)) = trimRight (c :: rest) := by
  obtain ⟨tail, htail⟩ := trimRight_cons h rest
  have hleft : trimLeft (trimRight (c :: rest)) = trimRight (c :: rest) := by
    rw [htail]
    simp [trimLeft, h]
  rw [trim, hleft, trimRight_trimRight]

theorem trim_trim (t : Text) : trim (trim t) = trim t := by
  cases hempty : (trim t).isEmpty with
  | true =>
    rw [List.isEmpty_iff.mp hempty]
    rfl
  | false =>
    obtain ⟨c, rest, htrim, hc⟩ := exists_trim_eq_cons hempty
    have hright : trimRight (trim t) = trim t := trimRight_trimRight (trimLeft t)
    rw [← hright, htrim]
    exact trim_trimRight_cons hc rest

theorem not_startsBlank_trim (t : Text) : startsBlank (trim t) = false := by
  cases hempty : (trim t).isEmpty with
  | true =>
    rw [List.isEmpty_iff.mp hempty]
    rfl
  | false =>
    obtain ⟨c, rest, htrim, hc⟩ := exists_trim_eq_cons hempty
    simp [htrim, startsBlank, hc]

theorem trimRight_eq_self_iff {t : Text} : trimRight t = t ↔ ∀ h : t ≠ [], isBlank (t.getLast h) = false := by
  refine List.rdropWhile_eq_self_iff.trans (forall_congr' fun _ => ?_)
  rw [Bool.not_eq_true]

/-- Whatever stands between two trimmed texts, the whole is trimmed. -/
theorem trim_between {a b : Text} (ha : trim a = a) (hane : a ≠ []) (hb : trim b = b) (hbne : b ≠ []) (t : Text) :
    trim (a ++ (t ++ b)) = a ++ (t ++ b) := by
  have hfirst : (trim a).isEmpty = false := by simp [ha, hane]
  obtain ⟨c, rest, hfront, hc⟩ := exists_trim_eq_cons hfirst
  rw [ha] at hfront
  have hleft : trimLeft (a ++ (t ++ b)) = a ++ (t ++ b) := by
    rw [hfront]
    simp [trimLeft, hc]
  have hright : trimRight b = b := by
    rw [← hb]
    exact trimRight_trimRight (trimLeft b)
  rw [trim, hleft, trimRight_eq_self_iff]
  intro _
  rw [List.getLast_append_of_right_ne_nil _ _ (by simp [hbne]), List.getLast_append_of_right_ne_nil _ _ hbne]
  exact trimRight_eq_self_iff.mp hright hbne

end Text

section Cut
variable {marker line t s kept : Text} {quote : Quote}

theorem prefix_of_beforeMarker (h : beforeMarker marker quote t = some kept) : kept <+: t := by
  induction t generalizing quote kept with
  | nil => cases h
  | cons c rest ih =>
    rw [beforeMarker] at h
    split at h
    · cases h
      exact List.nil_prefix
    · obtain ⟨more, hmore, rfl⟩ := Option.map_eq_some_iff.mp h
      exact List.prefix_cons_inj c |>.mpr (ih hmore)

/-- Before the first marker outside quotes there is none, and a scan that ends earlier is
in the same state up to there. -/
theorem beforeMarker_eq_none_of_prefix (h : beforeMarker marker quote t = some kept)
    (hs : s <+: kept) : beforeMarker marker quote s = none := by
  induction t generalizing quote kept s with
  | nil => cases h
  | cons c rest ih =>
    rw [beforeMarker] at h
    split at h
    · cases h
      rw [List.prefix_nil.mp hs]
      rfl
    · next hplain =>
      obtain ⟨more, hmore, rfl⟩ := Option.map_eq_some_iff.mp h
      cases s with
      | nil => rfl
      | cons d early =>
        obtain ⟨rfl, hearly⟩ := List.cons_prefix_cons.mp hs
        have hrest : d :: early <+: d :: rest := hs.trans (List.prefix_cons_inj d |>.mpr (prefix_of_beforeMarker hmore))
        rw [beforeMarker, if_neg, ih hmore hearly, Option.map_none]
        rintro ⟨hp, hm⟩
        rw [List.isPrefixOf_iff_prefix] at hm
        exact hplain ⟨hp, List.isPrefixOf_iff_prefix.mpr (hm.trans hrest)⟩

theorem prefix_uncomment (marker line : Text) : uncomment marker line <+: line := by
  unfold uncomment
  split
  · next kept hkept => exact (Text.prefix_trimRight kept).trans (prefix_of_beforeMarker hkept)
  · exact List.prefix_rfl

/-- What is left of a line has no comment. -/
theorem uncomment_uncomment (marker line : Text) :
    uncomment marker (uncomment marker line) = uncomment marker line := by
  cases hkept : beforeMarker marker none line with
  | none => simp only [uncomment, hkept]
  | some kept =>
    have hagain := beforeMarker_eq_none_of_prefix hkept (Text.prefix_trimRight kept)
    simp only [uncomment, hkept, hagain]

theorem trim_uncomment_trim (h : isSkippable marker line = false) :
    Text.trim (uncomment marker (Text.trim line)) = uncomment marker (Text.trim line) := by
  obtain ⟨hempty, hmarker⟩ := isSkippable_eq_false.mp h
  obtain ⟨c, rest, htrim, hc⟩ := Text.exists_trim_eq_cons hempty
  have hright : Text.trimRight (uncomment marker (Text.trim line)) = uncomment marker (Text.trim line) := by
    unfold uncomment
    split
    · exact Text.trimRight_trimRight _
    · exact Text.trimRight_trimRight _
  rw [htrim] at hmarker hright ⊢
  obtain ⟨tail, htail⟩ := uncomment_cons hmarker hc
  rw [htail] at hright ⊢
  rw [← hright]
  exact Text.trim_trimRight_cons hc tail

theorem isSkippable_uncomment (h : isSkippable marker line = false) :
    isSkippable marker (uncomment marker (Text.trim line)) = false := by
  rw [isSkippable_eq_false, trim_uncomment_trim h]
  obtain ⟨hempty, hmarker⟩ := isSkippable_eq_false.mp h
  constructor
  · obtain ⟨c, rest, htrim, hc⟩ := Text.exists_trim_eq_cons hempty
    rw [htrim] at hmarker ⊢
    obtain ⟨tail, htail⟩ := uncomment_cons hmarker hc
    rw [htail]
    rfl
  · rw [Bool.eq_false_iff, Ne, List.isPrefixOf_iff_prefix] at hmarker ⊢
    exact fun hm => hmarker (hm.trans (prefix_uncomment marker (Text.trim line)))

end Cut

@[simp] theorem isSkippable_trim (marker line : Text) :
    isSkippable marker (Text.trim line) = isSkippable marker line := by
  simp only [isSkippable, Text.trim_trim]

namespace Statement
variable {marker line : Text}

/-- A line that is not skipped is, without its blanks and its comment, a statement of its
own. -/
theorem ofLine_trim (h : isSkippable marker line = false) :
    ofLine marker (Text.trim line) = ofText (uncomment marker (Text.trim line)) := by
  have hs : isSkippable marker (Text.trim line) = false := by rw [isSkippable_trim, h]
  have hi : isIndented (Text.trim line) = false := Text.not_startsBlank_trim line
  rw [ofLine_of_executable hs, hi, Text.trim_trim]
  rfl

/-- A line as bodies store it. -/
structure Normal (marker line : Text) : Prop where
  nonempty : line ≠ []
  trimmed : Text.trim line = line
  unmarked : ¬ marker <+: line
  text : (ofLine marker line).text = line
  kind : (ofLine marker line).kind ∉ [.blank, .comment, .functionBodyLine]

theorem kind_ofText (text : Text) : (ofText text).kind ∉ [.blank, .comment, .functionBodyLine] := by
  change (Shape.ofText text).kind ∉ _
  cases Shape.ofText text <;> simp [Shape.kind]

theorem Normal.executable (h : Normal marker line) : isSkippable marker line = false := by
  rw [isSkippable_eq_false, h.trimmed]
  refine ⟨List.isEmpty_eq_false_iff.mpr h.nonempty, ?_⟩
  rw [Bool.eq_false_iff, Ne, List.isPrefixOf_iff_prefix]
  exact h.unmarked

theorem Normal.not_isIndented {marker line : Text} (h : Normal marker line) :
    isIndented line = false := by
  rw [← h.trimmed]
  exact Text.not_startsBlank_trim line

/-- A line in normal form is run as it stands. -/
theorem Normal.ofLine (h : Normal marker line) : ofLine marker line = ofText line := by
  have htext := h.text
  have hline := ofLine_trim h.executable
  rw [h.trimmed] at hline
  rw [hline] at htext ⊢
  exact congrArg ofText htext

theorem normal_of_ofLine (h : isSkippable marker line = false) (ht : Text.trim line = line)
    (hline : Statement.ofLine marker line = ofText line) : Normal marker line := by
  obtain ⟨hempty, hmarker⟩ := isSkippable_eq_false.mp h
  rw [ht] at hempty hmarker
  refine ⟨List.isEmpty_eq_false_iff.mp hempty, ht, ?_, ?_, ?_⟩
  · rw [← List.isPrefixOf_iff_prefix, hmarker]
    exact Bool.false_ne_true
  · rw [hline]
    rfl
  · rw [hline]
    exact kind_ofText line

/-- What is stored of a line that is not skipped is in normal form. -/
theorem normal_uncomment (h : isSkippable marker line = false) :
    Normal marker (uncomment marker (Text.trim line)) := by
  have htrim := trim_uncomment_trim h
  have hskip := isSkippable_uncomment h
  apply normal_of_ofLine hskip htrim
  have hline := ofLine_trim hskip
  rw [htrim, uncomment_uncomment] at hline
  exact hline

end Statement

end SnippetTutor
