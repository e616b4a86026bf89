import SnippetTutor.Proofs.Arguments.Scan
import SnippetTutor.Proofs.Statement.Normal

/-! # Cutting an argument text

An argument text is cut at exactly those commas at which the scan is outside of literals and brackets,
and nothing but these commas and the blanks around the pieces is lost. So texts that leave the scan
outside, and hold no such comma themselves, are given back after they have been joined.
-/
namespace SnippetTutor

namespace Text
variable {t left right : Text}

theorem trimRight_append_blanks (h : Blanks right) (t : Text) : trimRight (t ++ right) = trimRight t := by
  have hreverse : ∀ c ∈ right.reverse, isBlank c = true := fun c hc => h c (List.mem_reverse.mp hc)
  rw [trimRight, List.reverse_append, List.dropWhile_append_of_pos hreverse, trimRight]

theorem trimLeft_blanks (h : Blanks t) : trimLeft t = [] := List.dropWhile_eq_nil_iff.mpr h

/-- Blanks around a text do not matter to what is left of it. -/
theorem trim_blanks (hleft : Blanks left) (hright : Blanks right) (t : Text) :
    trim (left ++ (t ++ right)) = trim t := by
  rw [trim, trim, trimLeft, List.dropWhile_append_of_pos hleft, List.dropWhile_append, ← trimLeft, ← trimLeft]
  split
  · next hempty => rw [trimLeft_blanks hright, List.isEmpty_iff.mp hempty]
  · exact trimRight_append_blanks hright _

theorem trim_append_blanks (hright : Blanks right) (t : Text) : trim (t ++ right) = trim t :=
  trim_blanks blanks_nil hright t

theorem exists_trim (t : Text) : ∃ left right, Blanks left ∧ Blanks right ∧ t = left ++ (trim t ++ right) := by
  refine ⟨t.takeWhile isBlank, ((trimLeft t).reverse.takeWhile isBlank).reverse, ?_, ?_, ?_⟩
  · exact fun c hc => List.mem_takeWhile_imp hc
  · exact fun c hc => List.mem_takeWhile_imp (List.mem_reverse.mp hc)
  · rw [trim, trimRight, ← List.reverse_append, List.takeWhile_append_dropWhile, List.reverse_reverse, trimLeft,
      List.takeWhile_append_dropWhile]

theorem trim_eq_nil_iff : trim t = [] ↔ Blanks t := by
  constructor
  · intro h
    obtain ⟨left, right, hleft, hright, ht⟩ := exists_trim t
    rw [ht, h]
    exact List.forall_mem_append.mpr ⟨hleft, List.forall_mem_append.mpr ⟨blanks_nil, hright⟩⟩
  · intro h
    exact trim_append_blanks h []

end Text

namespace Arguments
open Text
variable {a b t : Text} {parts : List Text}

namespace Scan

/-- The pieces of a text that the scan meets in this state. -/
def pieces (s : Scan) (t : Text) : List Text := Arguments.pieces s.quote s.depth t

theorem pieces_cons (s : Scan) (c : Char) (t : Text) : s.pieces (c :: t) =
    if s = start ∧ c = ',' then [] :: start.pieces t else consHead c ((s.after c).pieces t) := by
  obtain ⟨quote, depth⟩ := s
  simp only [pieces, Arguments.pieces, start, after, Scan.mk.injEq, Option.isNone_iff_eq_none, and_assoc]

theorem pieces_ne_nil (s : Scan) (t : Text) : s.pieces t ≠ [] := by
  cases t with
  | nil => exact List.cons_ne_nil _ _
  | cons c rest =>
    rw [pieces_cons]
    split
    · exact List.cons_ne_nil _ _
    · exact consHead_ne_nil c _

/-- Nothing is lost but the commas between the pieces. -/
theorem joinWith_pieces (s : Scan) (t : Text) : joinWith [','] (s.pieces t) = t := by
  induction t generalizing s with
  | nil => rfl
  | cons c rest ih =>
    rw [pieces_cons]
    split
    · next hcut => rw [joinWith_cons _ _ (pieces_ne_nil _ _), ih, hcut.2, List.nil_append, List.singleton_append]
    · rw [joinWith_consHead _ _ (pieces_ne_nil _ _), ih]

theorem pieces_append {s : Scan} (h : s.afterText a = start) (b : Text) :
    s.pieces (a ++ ',' :: b) = s.pieces a ++ start.pieces b := by
  induction a generalizing s with
  | nil =>
    obtain rfl : s = start := h
    rw [List.nil_append, pieces_cons, if_pos ⟨rfl, rfl⟩]
    rfl
  | cons c rest ih =>
    rw [List.cons_append, pieces_cons, pieces_cons]
    split
    · next hcut =>
      obtain ⟨rfl, rfl⟩ := hcut
      rw [afterText_cons, start_after_comma] at h
      rw [ih h, List.cons_append]
    · rw [ih h, consHead_append c (pieces_ne_nil _ _)]

theorem pieces_of_uncut {s : Scan} (h : ∀ before after, t = before ++ ',' :: after → s.afterText before ≠ start) :
    s.pieces t = [t] := by
  induction t generalizing s with
  | nil => rfl
  | cons c rest ih =>
    have hc : ¬ (s = start ∧ c = ',') := by
      rintro ⟨rfl, rfl⟩
      exact h [] rest rfl rfl
    have hrest := ih (s := s.after c) fun before after hsplit => h (c :: before) after (by rw [hsplit, List.cons_append])
    rw [pieces_cons, if_neg hc, hrest]
    rfl

/-- Where the pieces are divided, the scan is outside. -/
theorem afterText_joinWith {s : Scan} {left right : List Text} (h : s.pieces t = left ++ right) (hleft : left ≠ [])
    (hright : right ≠ []) : s.afterText (joinWith [','] left) = start := by
  obtain ⟨piece, more, rfl⟩ := List.exists_cons_of_ne_nil hleft
  induction t generalizing s piece more with
  | nil =>
    have hnil := (List.cons.inj h).2
    exact absurd (List.append_eq_nil_iff.mp hnil.symm).2 hright
  | cons c rest ih =>
    rw [pieces_cons] at h
    split at h
    · next hcut =>
      obtain ⟨rfl, hmore⟩ := List.cons.inj h
      obtain ⟨rfl, -⟩ := hcut
      cases more with
      | nil => rw [joinWith_singleton, afterText_nil]
      | cons next others =>
        rw [joinWith_cons_cons, List.nil_append, List.singleton_append, afterText_cons, start_after_comma]
        exact ih next others hmore (List.cons_ne_nil _ _)
    · obtain ⟨next, others, hnext⟩ := List.exists_cons_of_ne_nil (pieces_ne_nil (s.after c) rest)
      rw [hnext] at h
      obtain ⟨rfl, rfl⟩ := List.cons.inj h
      have hjoin : joinWith [','] ((c :: next) :: more) = c :: joinWith [','] (next :: more) :=
        joinWith_consHead [','] c (List.cons_ne_nil next more)
      rw [hjoin, afterText_cons]
      exact ih next more hnext (List.cons_ne_nil _ _)

/-- Blanks in front belong to the first piece. -/
theorem pieces_blanks_append (h : Blanks a) {s : Scan} (hs : s.Sound) (t : Text) :
    ∃ first more, s.pieces t = first :: more ∧ s.pieces (a ++ t) = (a ++ first) :: more := by
  obtain ⟨first, more, hpieces⟩ := List.exists_cons_of_ne_nil (pieces_ne_nil s t)
  refine ⟨first, more, hpieces, ?_⟩
  induction a with
  | nil => exact hpieces
  | cons c rest ih =>
    obtain ⟨hc, hrest⟩ := List.forall_mem_cons.mp h
    have hcut : ¬ (s = start ∧ c = ',') := by
      rintro ⟨-, rfl⟩
      exact absurd hc (by decide)
    rw [List.cons_append, pieces_cons, if_neg hcut, after_blank hc hs, ih hrest]
    rfl

/-- Blanks at the end belong to the last piece. -/
theorem pieces_append_blanks (h : Blanks b) {s : Scan} (hs : s.Sound) (t : Text) :
    ∃ before last, s.pieces t = before ++ [last] ∧ s.pieces (t ++ b) = before ++ [last ++ b] := by
  induction t generalizing s with
  | nil =>
    obtain ⟨first, more, hpieces, hblanks⟩ := pieces_blanks_append h hs []
    obtain ⟨rfl, rfl⟩ := List.cons.inj hpieces
    exact ⟨[], [], rfl, by simpa using hblanks⟩
  | cons c rest ih =>
    rw [List.cons_append, pieces_cons, pieces_cons]
    split
    · obtain ⟨before, last, hrest, hblanks⟩ := ih sound_start
      exact ⟨[] :: before, last, by rw [hrest, List.cons_append], by rw [hblanks, List.cons_append]⟩
    · obtain ⟨before, last, hrest, hblanks⟩ := ih (hs.after c)
      rw [hrest, hblanks]
      cases before with
      | nil => exact ⟨[], c :: last, rfl, rfl⟩
      | cons first more => exact ⟨(c :: first) :: more, last, rfl, rfl⟩

end Scan

/-- At no comma of the text the scan is outside of literals and brackets. -/
def Uncut (t : Text) : Prop := ∀ before after, t = before ++ ',' :: after → ¬ Closed before

theorem uncut_iff : Uncut t ↔ Scan.start.pieces t = [t] := by
  constructor
  · exact Scan.pieces_of_uncut
  · rintro h before after rfl hclosed
    rw [Scan.pieces_append hclosed] at h
    have hlength := congrArg List.length h
    have hbefore := List.length_pos_of_ne_nil (Scan.pieces_ne_nil .start before)
    have hafter := List.length_pos_of_ne_nil (Scan.pieces_ne_nil .start after)
    simp only [List.length_append, List.length_singleton] at hlength
    omega

instance (t : Text) : Decidable (Uncut t) := decidable_of_iff _ uncut_iff.symm

/-- Closed texts without a cut are the pieces of their join. -/
theorem pieces_joinWith (hne : parts ≠ []) (h : ∀ p ∈ parts, Uncut p ∧ Closed p) :
    Scan.start.pieces (joinWith [','] parts) = parts := by
  induction parts with
  | nil => exact absurd rfl hne
  | cons p rest ih =>
    obtain ⟨⟨huncut, hclosed⟩, hrest⟩ := List.forall_mem_cons.mp h
    cases rest with
    | nil => rw [joinWith_singleton, uncut_iff.mp huncut]
    | cons next more =>
      rw [joinWith_cons_cons, List.singleton_append, Scan.pieces_append hclosed, uncut_iff.mp huncut,
        ih (List.cons_ne_nil next more) hrest, List.singleton_append]

theorem closed_space_cons (h : Closed t) : Closed (' ' :: t) := h

theorem uncut_space_cons (h : Uncut t) : Uncut (' ' :: t) := by
  rw [uncut_iff] at h ⊢
  rw [Scan.pieces_cons, if_neg (by decide)]
  change consHead ' ' (Scan.start.pieces t) = _
  rw [h]
  rfl

theorem joinWith_comma_space (p : Text) (rest : List Text) :
    joinWith ", ".toList (p :: rest) = joinWith [','] (p :: rest.map (' ' :: ·)) := by
  induction rest generalizing p with
  | nil => rw [List.map_nil, joinWith_singleton, joinWith_singleton]
  | cons next more ih =>
    rw [joinWith_cons_cons, ih next, List.map_cons, joinWith_cons_cons]
    cases more with
    | nil => simp [joinWith_singleton]
    | cons third others => simp [joinWith_cons_cons]

theorem trim_space_cons (t : Text) : trim (' ' :: t) = trim t := by
  have h : Blanks [' '] := by decide
  have htrim := trim_blanks h blanks_nil t
  rwa [List.append_nil, List.singleton_append] at htrim

/-- Joined closed texts without a cut are cut where they were joined. -/
theorem map_trim_pieces (hne : parts ≠ []) (h : ∀ p ∈ parts, Uncut p ∧ Closed p) :
    (Scan.start.pieces (joinWith ", ".toList parts)).map trim = parts.map trim := by
  obtain ⟨p, rest, rfl⟩ := List.exists_cons_of_ne_nil hne
  obtain ⟨hp, hrest⟩ := List.forall_mem_cons.mp h
  have hspaced : ∀ q ∈ p :: rest.map (' ' :: ·), Uncut q ∧ Closed q := by
    refine List.forall_mem_cons.mpr ⟨hp, List.forall_mem_map.mpr fun q hq => ?_⟩
    exact ⟨uncut_space_cons (hrest q hq).1, closed_space_cons (hrest q hq).2⟩
  rw [joinWith_comma_space, pieces_joinWith (List.cons_ne_nil _ _) hspaced, List.map_cons, List.map_cons, List.map_map]
  exact congrArg _ (List.map_congr_left fun q _ => trim_space_cons q)

/-! ## The split -/

theorem split_of_not_blanks (h : ¬ Blanks t) : split t = (Scan.start.pieces t).map trim := by
  exact if_neg (mt (fun hempty => trim_eq_nil_iff.mp (List.isEmpty_iff.mp hempty)) h)

theorem split_eq_nil_iff : split t = [] ↔ Blanks t := by
  constructor
  · intro h
    by_contra hblanks
    rw [split_of_not_blanks hblanks, List.map_eq_nil_iff] at h
    exact Scan.pieces_ne_nil .start t h
  · intro h
    exact if_pos (List.isEmpty_iff.mpr (trim_eq_nil_iff.mpr h))

/-- Blanks around the whole text are blanks around a piece. -/
theorem split_trim (t : Text) : split (trim t) = split t := by
  by_cases hblanks : Blanks t
  · rw [split_eq_nil_iff.mpr hblanks, trim_eq_nil_iff.mpr hblanks]
    rfl
  · have htrim : ¬ Blanks (trim t) := by
      rw [← trim_eq_nil_iff, trim_trim, trim_eq_nil_iff]
      exact hblanks
    obtain ⟨left, right, hleft, hright, ht⟩ := exists_trim t
    obtain ⟨first, more, hpieces, hleading⟩ := Scan.pieces_blanks_append hleft Scan.sound_start (trim t ++ right)
    obtain ⟨before, last, hshort, hlong⟩ := Scan.pieces_append_blanks hright Scan.sound_start (trim t)
    have hfirst : trim (left ++ first) = trim first := by simpa using trim_blanks hleft blanks_nil first
    calc split (trim t) = (Scan.start.pieces (trim t)).map trim := split_of_not_blanks htrim
      _ = (Scan.start.pieces (trim t ++ right)).map trim := by
        rw [hshort, hlong, List.map_append, List.map_append, List.map_singleton, List.map_singleton,
          trim_append_blanks hright]
      _ = (Scan.start.pieces (left ++ (trim t ++ right))).map trim := by
        rw [hpieces, hleading, List.map_cons, List.map_cons, hfirst]
      _ = split t := by rw [← ht, split_of_not_blanks hblanks]

theorem split_joinWith_map (hblanks : ¬ Blanks (joinWith ", ".toList parts)) (h : ∀ p ∈ parts, Uncut p ∧ Closed p) :
    split (joinWith ", ".toList parts) = parts.map trim := by
  have hne : parts ≠ [] := by
    rintro rfl
    exact hblanks blanks_nil
  rw [split_of_not_blanks hblanks, map_trim_pieces hne h]

/-- The join of several texts has a comma. -/
theorem not_blanks_joinWith (hempty : parts ≠ [[]]) (hne : parts ≠ []) (h : ∀ p ∈ parts, trim p = p) :
    ¬ Blanks (joinWith ", ".toList parts) := by
  intro hblanks
  obtain ⟨p, rest, rfl⟩ := List.exists_cons_of_ne_nil hne
  cases rest with
  | nil =>
    rw [joinWith_singleton, ← trim_eq_nil_iff, h p List.mem_cons_self] at hblanks
    exact hempty (congrArg (fun q => [q]) hblanks)
  | cons next more =>
    rw [joinWith_cons_cons] at hblanks
    exact absurd (hblanks ',' (by simp)) (by decide)

theorem split_joinWith (hempty : parts ≠ [[]]) (h : ∀ p ∈ parts, trim p = p ∧ Uncut p ∧ Closed p) :
    split (joinWith ", ".toList parts) = parts := by
  by_cases hne : parts = []
  · rw [hne]
    rfl
  · have hblanks := not_blanks_joinWith hempty hne fun p hp => (h p hp).1
    rw [split_joinWith_map hblanks fun p hp => (h p hp).2]
    exact (List.map_congr_left fun p hp => (h p hp).1).trans (List.map_id parts)

/-- A blank text has no arguments. Any other text is cut at exactly those commas at which the scan is
outside of literals and brackets, and the arguments are the trimmed pieces between them. The other way
round, trimmed texts that leave the scan outside and hold no such comma themselves are the arguments of
their join, unless they are one empty text. Outside of literals the scan has as many brackets open as the
text leaves open, where a bracket that closes ends the last one that is open, if there is one. -/
theorem split_cuts_outside :
    (∀ t, split t = [] ↔ Blanks t) ∧
    (∀ t, ¬ Blanks t → ∃ pieces, pieces ≠ [] ∧ t = joinWith [','] pieces ∧ split t = pieces.map trim ∧
      ∀ before after, (t = before ++ ',' :: after ∧ Closed before) ↔
        ∃ left right, left ≠ [] ∧ right ≠ [] ∧ pieces = left ++ right ∧
          before = joinWith [','] left ∧ after = joinWith [','] right) ∧
    (∀ parts, parts ≠ [] → parts ≠ [[]] → (∀ p ∈ parts, trim p = p ∧ Uncut p ∧ Closed p) →
      split (joinWith ", ".toList parts) = parts) ∧
    (∀ t depth, Scan.start.afterText t = ⟨none, depth⟩ ↔ Leaves depth t) := by
  refine ⟨fun t => split_eq_nil_iff, ?_, fun parts _ hempty h => split_joinWith hempty h,
    fun t depth => Scan.afterText_eq_iff_leaves⟩
  intro t hblanks
  have hjoin := Scan.joinWith_pieces .start t
  refine ⟨Scan.start.pieces t, Scan.pieces_ne_nil .start t, hjoin.symm, split_of_not_blanks hblanks, ?_⟩
  intro before after
  constructor
  · rintro ⟨rfl, hclosed⟩
    exact ⟨_, _, Scan.pieces_ne_nil .start before, Scan.pieces_ne_nil .start after, Scan.pieces_append hclosed after,
      (Scan.joinWith_pieces .start before).symm, (Scan.joinWith_pieces .start after).symm⟩
  · rintro ⟨left, right, hleft, hright, hpieces, rfl, rfl⟩
    refine ⟨?_, Scan.afterText_joinWith hpieces hleft hright⟩
    rw [← hjoin, hpieces, joinWith_append _ hleft hright, List.singleton_append]

/-- A text with a bracket too many, a literal that holds a comma, and a bracket that stays open; three
arguments that are joined, one of which is empty; and calls and lists in one another, of which the text
before one of the commas leaves two open. -/
theorem split_cuts_outside_unbalanced :
    split ") , 'a,b' , [c, d".toList = [")".toList, "'a,b'".toList, "[c, d".toList] ∧
    (∃ pieces, pieces.length = 3 ∧ ") , 'a,b' , [c, d".toList = joinWith [','] pieces) ∧
    split (joinWith ", ".toList ["[1, 2]".toList, [], "\"it's, so\"".toList]) =
      ["[1, 2]".toList, [], "\"it's, so\"".toList] ∧
    split (joinWith ", ".toList ["f((1, 2), [3, (4)])".toList, "(')', \x7ba: [b, c]\x7d)".toList]) =
      ["f((1, 2), [3, (4)])".toList, "(')', \x7ba: [b, c]\x7d)".toList] ∧
    Leaves 0 "f((1, 2), [3, (4)])".toList ∧ Leaves 2 "f((1, 2), [3".toList := by
  obtain ⟨-, hcuts, hjoined, hleaves⟩ := split_cuts_outside
  obtain ⟨pieces, -, hjoin, hsplit, -⟩ := hcuts ") , 'a,b' , [c, d".toList (by decide)
  have harguments : split ") , 'a,b' , [c, d".toList = [")".toList, "'a,b'".toList, "[c, d".toList] := by decide
  refine ⟨harguments, ⟨pieces, ?_, hjoin⟩, hjoined _ (by decide) (by decide) (by decide +kernel),
    hjoined _ (by decide) (by decide) (by decide +kernel), (hleaves _ 0).mp (by decide +kernel),
    (hleaves _ 2).mp (by decide +kernel)⟩
  have hlength := congrArg List.length (hsplit.symm.trans harguments)
  rwa [List.length_map] at hlength

end Arguments

end SnippetTutor
