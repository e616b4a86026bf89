import SnippetTutor.Statement.Basic

/-! # Blanks around a line

A line is trimmed before anything else is done with it, and what is stored of an indented
line starts with a visible character.
-/
namespace SnippetTutor

namespace Text
variable {c : Char}

theorem trimRight_cons (h : isBlank c = false) (rest : Text) :
    ∃ tail, trimRight (c :: rest) = c :: tail := by
  rw [trimRight, List.reverse_cons, List.dropWhile_append]
  split
  · exact ⟨[], by simp [h]⟩
  · exact ⟨(rest.reverse.dropWhile isBlank).reverse, by simp⟩

theorem trim_cons (h : isBlank c = false) (rest : Text) : ∃ tail, trim (c :: rest) = c :: tail := by
  have hleft : trimLeft (c :: rest) = c :: rest := by
    simp [trimLeft, h]
  rw [trim, hleft]
  exact trimRight_cons h rest

theorem exists_trim_eq_cons {t : Text} (h : (trim t).isEmpty = false) :
    ∃ c rest, trim t = c :: rest ∧ isBlank c = false := by
  cases hleft : trimLeft t with
  | nil =>
    rw [trim, hleft] at h
    cases h
  | cons c rest =>
    have hc : isBlank c = false := by
      have hhead := List.head?_dropWhile_not isBlank t
      unfold trimLeft at hleft
      rw [hleft] at hhead
      simpa using hhead
    obtain ⟨tail, htail⟩ := trimRight_cons hc rest
    exact ⟨c, tail, by rw [trim, hleft, htail], hc⟩

end Text

theorem uncomment_cons {marker rest : Text} {c : Char} (h : marker.isPrefixOf (c :: rest) = false)
    (hc : Text.isBlank c = false) : ∃ tail, uncomment marker (c :: rest) = c :: tail := by
  unfold uncomment
  cases hkept : beforeMarker marker none (c :: rest) with
  | none => exact ⟨rest, rfl⟩
  | some kept =>
    simp only [beforeMarker, h, Bool.false_eq_true, and_false, if_false] at hkept
    obtain ⟨more, -, rfl⟩ := Option.map_eq_some_iff.mp hkept
    exact Text.trimRight_cons hc more

theorem isSkippable_eq_false {marker line : Text} : isSkippable marker line = false ↔
    (Text.trim line).isEmpty = false ∧ marker.isPrefixOf (Text.trim line) = false := by
  simp only [isSkippable, Bool.or_eq_false_iff]

namespace Statement
variable {marker line text : Text}

theorem ofLine_of_skippable (h : isSkippable marker line = true) :
    ofLine marker line = .blank ∨ ∃ text, ofLine marker line = .comment text := by
  simp only [isSkippable, Bool.or_eq_true] at h
  simp only [ofLine]
  split
  · exact Or.inl rfl
  · next hempty => exact Or.inr ⟨_, if_pos (h.resolve_left hempty)⟩

/-- A line that is not skipped belongs to a body if it is indented, and is a statement of
its own otherwise. -/
theorem ofLine_of_executable (h : isSkippable marker line = false) :
    ofLine marker line = if isIndented line then .bodyLine (uncomment marker (Text.trim line))
      else ofText (uncomment marker (Text.trim line)) := by
  obtain ⟨hempty, hmarker⟩ := isSkippable_eq_false.mp h
  simp only [ofLine, hempty, hmarker, Bool.false_eq_true, if_false]

theorem ofLine_eq_bodyLine : ofLine marker line = .bodyLine text ↔
    isSkippable marker line = false ∧ isIndented line = true ∧
      text = uncomment marker (Text.trim line) := by
  cases hs : isSkippable marker line with
  | true => rcases ofLine_of_skippable hs with h | ⟨t, h⟩ <;> simp [h]
  | false =>
    rw [ofLine_of_executable hs]
    split
    · next hi => simp [hi, eq_comm]
    · next hi => simp [hi, ofText]

theorem isIndented_of_bodyLine (h : ofLine marker line = .bodyLine text) : isIndented line = true :=
  (ofLine_eq_bodyLine.mp h).2.1

theorem not_isIndented_text (h : ofLine marker line = .bodyLine text) : isIndented text = false := by
  obtain ⟨hs, -, rfl⟩ := ofLine_eq_bodyLine.mp h
  obtain ⟨hempty, hmarker⟩ := isSkippable_eq_false.mp hs
  obtain ⟨c, rest, htrim, hc⟩ := Text.exists_trim_eq_cons hempty
  rw [htrim] at hmarker ⊢
  obtain ⟨tail, htail⟩ := uncomment_cons hmarker hc
  simp [htail, isIndented, Text.startsBlank, hc]

end Statement

end SnippetTutor
