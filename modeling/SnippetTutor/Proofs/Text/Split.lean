import SnippetTutor.Text.Basic

/-! # Splitting joined texts

Splitting at a separator takes joined pieces apart again, and further than they were
joined exactly where a piece holds the separator itself.
-/
namespace SnippetTutor.Text

theorem joinWith_singleton (separator t : Text) : joinWith separator [t] = t := by
  simp [joinWith, List.intercalate, List.intersperse]

theorem joinWith_cons_cons (separator first second : Text) (rest : List Text) :
    joinWith separator (first :: second :: rest) =
      first ++ (separator ++ joinWith separator (second :: rest)) := by
  simp [joinWith, List.intercalate, List.intersperse]

theorem joinWith_cons (separator first : Text) {rest : List Text} (h : rest ≠ []) :
    joinWith separator (first :: rest) = first ++ (separator ++ joinWith separator rest) := by
  cases rest with
  | nil => exact absurd rfl h
  | cons second more => exact joinWith_cons_cons separator first second more

theorem joinWith_append (separator : Text) {first second : List Text} (hfirst : first ≠ []) (hsecond : second ≠ []) :
    joinWith separator (first ++ second) =
      joinWith separator first ++ (separator ++ joinWith separator second) := by
  induction first with
  | nil => exact absurd rfl hfirst
  | cons piece rest ih =>
    cases rest with
    | nil => rw [List.singleton_append, joinWith_cons separator piece hsecond, joinWith_singleton]
    | cons next more =>
      rw [List.cons_append, joinWith_cons separator piece (by simp), ih (List.cons_ne_nil next more),
        joinWith_cons_cons]
      simp only [List.append_assoc]

theorem joinWith_consHead (separator : Text) (c : Char) {pieces : List Text} (h : pieces ≠ []) :
    joinWith separator (consHead c pieces) = c :: joinWith separator pieces := by
  cases pieces with
  | nil => exact absurd rfl h
  | cons piece rest =>
    cases rest with
    | nil => simp [consHead, joinWith_singleton]
    | cons next more => simp [consHead, joinWith_cons_cons]

theorem mem_joinWith {separator : Text} {pieces : List Text} {c : Char} (h : c ∈ joinWith separator pieces) :
    c ∈ separator ∨ ∃ piece ∈ pieces, c ∈ piece := by
  induction pieces with
  | nil => cases h
  | cons piece rest ih =>
    cases rest with
    | nil =>
      rw [joinWith_singleton] at h
      exact Or.inr ⟨piece, List.mem_cons_self, h⟩
    | cons next more =>
      rw [joinWith_cons_cons, List.mem_append, List.mem_append] at h
      rcases h with h | h | h
      · exact Or.inr ⟨piece, List.mem_cons_self, h⟩
      · exact Or.inl h
      · exact (ih h).imp_right fun ⟨p, hp, hc⟩ => ⟨p, List.mem_cons_of_mem piece hp, hc⟩

variable (separator : Char)

theorem consHead_append (c : Char) {pieces : List Text} (h : pieces ≠ []) (more : List Text) :
    consHead c (pieces ++ more) = consHead c pieces ++ more := by
  cases pieces with
  | nil => exact absurd rfl h
  | cons piece rest => rfl

theorem splitOn_append (a b : Text) :
    splitOn separator (a ++ separator :: b) = splitOn separator a ++ splitOn separator b := by
  induction a with
  | nil => simp [splitOn]
  | cons c rest ih =>
    by_cases h : c = separator
    · simp [splitOn, h, ih]
    · simp only [List.cons_append, splitOn, if_neg h, ih]
      exact consHead_append c (splitOn_ne_nil separator rest) _

theorem splitOn_of_not_mem {t : Text} (h : separator ∉ t) : splitOn separator t = [t] := by
  induction t with
  | nil => rfl
  | cons c rest ih =>
    rw [List.mem_cons, not_or] at h
    rw [splitOn, if_neg (Ne.symm h.1), ih h.2]
    rfl

theorem length_splitOn (t : Text) : (splitOn separator t).length = t.count separator + 1 := by
  induction t with
  | nil => rfl
  | cons c rest ih =>
    by_cases h : c = separator
    · simp [splitOn, h, ih]
    · rw [splitOn, if_neg h, List.count_cons_of_ne h, ← ih]
      cases hs : splitOn separator rest with
      | nil => simp at hs
      | cons piece more => rfl

theorem splitOn_joinWith {pieces : List Text} (h : pieces ≠ []) :
    splitOn separator (joinWith [separator] pieces) = pieces.flatMap (splitOn separator) := by
  induction pieces with
  | nil => exact absurd rfl h
  | cons piece rest ih =>
    cases rest with
    | nil => simp [joinWith_singleton]
    | cons next more =>
      rw [joinWith_cons_cons, List.singleton_append, splitOn_append, ih (List.cons_ne_nil next more)]
      rfl

theorem length_le_flatMap_splitOn (pieces : List Text) :
    pieces.length ≤ (pieces.flatMap (splitOn separator)).length := by
  induction pieces with
  | nil => exact Nat.le_refl 0
  | cons piece rest ih =>
    rw [List.flatMap_cons, List.length_append, length_splitOn, List.length_cons]
    omega

/-- Pieces survive being joined and split exactly if none of them holds the separator. -/
theorem flatMap_splitOn_eq_self {pieces : List Text} :
    pieces.flatMap (splitOn separator) = pieces ↔ ∀ piece ∈ pieces, separator ∉ piece := by
  induction pieces with
  | nil => simp
  | cons piece rest ih =>
    rw [List.flatMap_cons, List.forall_mem_cons, ← ih]
    constructor
    · intro h
      have hlength := congrArg List.length h
      have hrest := length_le_flatMap_splitOn separator rest
      rw [List.length_append, length_splitOn, List.length_cons] at hlength
      have hcount : piece.count separator = 0 := by omega
      have hpiece : separator ∉ piece := List.count_eq_zero.mp hcount
      rw [splitOn_of_not_mem separator hpiece, List.singleton_append, List.cons.injEq] at h
      exact ⟨hpiece, h.2⟩
    · rintro ⟨hpiece, hrest⟩
      rw [splitOn_of_not_mem separator hpiece, hrest, List.singleton_append]

end SnippetTutor.Text
