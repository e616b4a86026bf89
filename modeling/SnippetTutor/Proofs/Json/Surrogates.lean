import SnippetTutor.Proofs.Json.Reading
import SnippetTutor.Proofs.Json.Writing

/-! # Documents that stand for nothing

A document stands for nothing exactly where a string of it holds a surrogate without the other half. If
all surrogates of a text are paired, taken as one sequence of code points, they are so in every string
of it, because the quotes and marks between the strings keep halves of different strings apart. Readers
that make something of a single surrogate and readers that do not are at one on such texts.
-/
namespace SnippetTutor.Json

/-- The code point that four hexadecimal digits stand for. -/
def pointOf? (a b c d : Char) : Option Nat := do
  some (Text.numberOf 16 [← Text.hexDigit? a, ← Text.hexDigit? b, ← Text.hexDigit? c, ← Text.hexDigit? d])

/-- The code points of a text in which escapes are read. -/
def pointsOf : Text → List Nat
  | '\\' :: 'u' :: a :: b :: c :: d :: rest => (pointOf? a b c d).getD 0 :: pointsOf rest
  | '\\' :: c :: rest => ((simpleEscape? c).getD c).toNat :: pointsOf rest
  | c :: rest => c.toNat :: pointsOf rest
  | [] => []

/-- A single surrogate stands for no character, and all other code points belong to one. -/
def Paired (points : List Nat) : Prop := (charsOf points).isSome

/-- Each surrogate that is escaped in the text has its other half beside it. -/
def SurrogatesPaired (t : Text) : Prop := Paired (pointsOf t)

instance (t : Text) : Decidable (SurrogatesPaired t) := inferInstanceAs (Decidable (_ = _))

section Points
variable {c : Char} {t u word : Text} {points before after : List Nat}

theorem paired_nil : Paired [] := rfl

theorem paired_cons_toNat : Paired (c.toNat :: after) ↔ Paired after := by
  rw [Paired, charsOf_cons_toNat, Option.isSome_map, Paired]

/-- A character keeps apart what stands before it and after it. -/
theorem paired_append_toNat : Paired (before ++ c.toNat :: after) ↔ Paired before ∧ Paired after := by
  obtain ⟨hhigh, hlow⟩ := not_surrogate c
  induction before using charsOf.induct with
  | case1 => simpa [paired_nil] using paired_cons_toNat
  | case2 high low rest hpair ih => simpa [Paired, charsOf, hpair] using ih
  | case3 high low rest hpair hsingle => simp [Paired, charsOf, hpair, hsingle]
  | case4 high low rest hpair hsingle ih => simpa [Paired, charsOf, hpair, hsingle] using ih
  | case5 n hsingle => simp [Paired, charsOf, hlow, hsingle]
  | case6 n hsingle =>
    simpa [Paired, charsOf, hlow, hsingle] using paired_cons_toNat

theorem paired_text_append (t : Text) : Paired (t.map Char.toNat ++ after) ↔ Paired after := by
  induction t with
  | nil => rfl
  | cons c rest ih => rw [List.map_cons, List.cons_append, paired_cons_toNat, ih]

theorem paired_append_text (t : Text) : Paired (before ++ t.map Char.toNat) ↔ Paired before := by
  induction t generalizing before with
  | nil => rw [List.map_nil, List.append_nil]
  | cons c rest ih =>
    rw [List.map_cons, paired_append_toNat]
    have hrest := (paired_text_append rest).mpr paired_nil
    rw [List.append_nil] at hrest
    exact and_iff_left hrest

/-! ## Points of parts -/

/-- The text has these code points, whatever follows it. -/
def Spells (t : Text) (points : List Nat) : Prop := ∀ rest, pointsOf (t ++ rest) = points ++ pointsOf rest

theorem Spells.append (ht : Spells t before) (hu : Spells u after) : Spells (t ++ u) (before ++ after) := by
  intro rest
  rw [List.append_assoc, ht, hu, List.append_assoc]

theorem pointsOf_cons (h : c ≠ '\\') (t : Text) : pointsOf (c :: t) = c.toNat :: pointsOf t := by
  rw [pointsOf]
  · exact fun _ _ _ _ _ hc _ => h hc
  · exact fun _ _ hc _ => h hc

theorem Spells.cons (h : c ≠ '\\') (ht : Spells t points) : Spells (c :: t) (c.toNat :: points) := by
  intro rest
  rw [List.cons_append, pointsOf_cons h, ht, List.cons_append]

theorem spells_of_no_escape (h : '\\' ∉ t) : Spells t (t.map Char.toNat) := by
  induction t with
  | nil => exact fun _ => rfl
  | cons c rest ih =>
    obtain ⟨hc, hrest⟩ := not_or.mp (mt List.mem_cons.mpr h)
    exact (ih hrest).cons (Ne.symm hc)

theorem spells_body (h : Body t points) : Spells t points := by
  induction h with
  | nil => exact fun _ => rfl
  | plain _ hslash _ _ ih => exact ih.cons hslash
  | @escape c e t points he _ ih =>
    intro rest
    have hu : c ≠ 'u' := by
      rintro rfl
      cases he
    rw [List.cons_append, List.cons_append, pointsOf, he, ih]
    · rfl
    · exact fun _ _ _ _ _ hc _ => hu hc
  | @unit digits t values points hdigits hlength _ ih =>
    intro rest
    have hfour : digits.length = 4 := by simpa [hlength] using congrArg List.length hdigits
    obtain ⟨a, b, c, d, rfl⟩ := exists_four hfour
    obtain ⟨v, w, x, y, rfl⟩ := exists_four hlength
    simp only [List.map_cons, List.map_nil, List.cons.injEq, and_true] at hdigits
    obtain ⟨ha, hb, hc, hd⟩ := hdigits
    have hpoint : pointOf? a b c d = some (Text.numberOf 16 [v, w, x, y]) := by
      simp [pointOf?, ha, hb, hc, hd]
    simp only [List.cons_append, List.nil_append, pointsOf, hpoint, Option.getD_some, ih rest]

theorem spells_spaces (h : Spaces t) : Spells t (t.map Char.toNat) :=
  spells_of_no_escape fun hslash => absurd (h _ hslash) (by decide)

theorem spells_mark (c : Char) (h : c ≠ '\\') : Spells [c] [c.toNat] :=
  spells_of_no_escape (by simpa using Ne.symm h)

/-! ## Parts of a document -/

/-- The part stands for something. -/
def Part.Stands : Part → Prop
  | .value denoted => denoted.isSome
  | .items denoted => denoted.isSome
  | .field denoted => denoted.isSome
  | .fields denoted => denoted.isSome

theorem isSome_consDenoted {α : Type} {first : Option α} {rest : Option (List α)} (hfirst : first.isSome)
    (hrest : rest.isSome) : (consDenoted first rest).isSome := by
  obtain ⟨x, rfl⟩ := Option.isSome_iff_exists.mp hfirst
  obtain ⟨xs, rfl⟩ := Option.isSome_iff_exists.mp hrest
  rfl

/-- The text has code points with which, if they are paired, the part stands for something. -/
def StandsIfPaired (p : Part) (t : Text) : Prop := ∃ points, Spells t points ∧ (Paired points → p.Stands)

theorem standsIfPaired_of_no_escape {value : Json} (h : '\\' ∉ t) : StandsIfPaired (.value (some value)) t :=
  ⟨_, spells_of_no_escape h, fun _ => rfl⟩

theorem standsIfPaired_quotedBody (h : Body t points) :
    StandsIfPaired (.value ((charsOf points).map .text)) (quotedBody t) := by
  refine ⟨_, ((spells_body h).append (spells_mark '"' (by decide))).cons (by decide), fun hpaired => ?_⟩
  rw [Part.Stands, Option.isSome_map]
  exact (paired_append_toNat.mp (paired_cons_toNat.mp hpaired)).1

theorem StandsIfPaired.enclosed {opening closing : Char} {p q : Part} (h : StandsIfPaired p t)
    (hopening : opening ≠ '\\') (hclosing : closing ≠ '\\') (hstands : p.Stands → q.Stands) :
    StandsIfPaired q (opening :: (t ++ [closing])) := by
  obtain ⟨points, hpoints, hp⟩ := h
  refine ⟨_, (hpoints.append (spells_mark closing hclosing)).cons hopening, fun hpaired => hstands (hp ?_)⟩
  exact (paired_append_toNat.mp (paired_cons_toNat.mp hpaired)).1

theorem StandsIfPaired.spaced {p q : Part} {left right : Text} (h : StandsIfPaired p t) (hleft : Spaces left)
    (hright : Spaces right) (hstands : p.Stands → q.Stands) : StandsIfPaired q (left ++ (t ++ right)) := by
  obtain ⟨points, hpoints, hp⟩ := h
  refine ⟨_, (spells_spaces hleft).append (hpoints.append (spells_spaces hright)), fun hpaired => hstands (hp ?_)⟩
  exact (paired_append_text right).mp ((paired_text_append left).mp hpaired)

/-- A mark keeps two parts apart. -/
theorem StandsIfPaired.separated {p q r : Part} {mark : Char} (ht : StandsIfPaired p t) (hu : StandsIfPaired q u)
    (hmark : mark ≠ '\\') (hstands : p.Stands → q.Stands → r.Stands) : StandsIfPaired r (t ++ mark :: u) := by
  obtain ⟨first, hfirst, hp⟩ := ht
  obtain ⟨second, hsecond, hq⟩ := hu
  refine ⟨_, hfirst.append (hsecond.cons hmark), fun hpaired => ?_⟩
  obtain ⟨hleft, hright⟩ := paired_append_toNat.mp hpaired
  exact hstands (hp hleft) (hq hright)

theorem Written.standsIfPaired {names : Bool} {p : Part} (h : Written names p t) : StandsIfPaired p t := by
  induction h with
  | null => exact standsIfPaired_of_no_escape (by decide)
  | bool b => cases b <;> exact standsIfPaired_of_no_escape (by decide)
  | numeral n =>
    exact standsIfPaired_of_no_escape fun hslash => absurd (Numeral.isWordPart_of_mem_text hslash) (by decide)
  | nan => exact standsIfPaired_of_no_escape (by decide)
  | infinite _ negative => cases negative <;> exact standsIfPaired_of_no_escape (by decide)
  | text h => exact standsIfPaired_quotedBody h
  | emptyArray h | emptyObject h =>
    have hinside : StandsIfPaired (.items (some [])) _ := ⟨_, spells_spaces h, fun _ => rfl⟩
    exact hinside.enclosed (by decide) (by decide) fun _ => rfl
  | array _ ih | object _ ih =>
    refine ih.enclosed (by decide) (by decide) fun hstands => ?_
    rw [Part.Stands, Option.isSome_map]
    exact hstands
  | lastItem hbefore _ hafter ih | lastField hbefore _ hafter ih =>
    exact ih.spaced hbefore hafter fun hstands => isSome_consDenoted hstands rfl
  | @item item items before t after more hbefore _ hafter _ ih ihmore =>
    have hboth : StandsIfPaired (.items (consDenoted item items)) (before ++ (t ++ after) ++ ',' :: more) :=
      (ih.spaced hbefore hafter id).separated ihmore (by decide) fun hitem hitems => isSome_consDenoted hitem hitems
    simpa using hboth
  | @field key points value before t after hkey hbefore hafter _ ih =>
    have hname := (standsIfPaired_quotedBody hkey).spaced spaces_nil hbefore id
    have hboth : StandsIfPaired (.field ((charsOf points).bind fun k => value.map fun v => (k, v)))
        ([] ++ (quotedBody key ++ before) ++ ':' :: (after ++ (t ++ []))) := by
      refine hname.separated (ih.spaced hafter spaces_nil id) (by decide) fun hchars hvalue => ?_
      rw [Part.Stands, Option.isSome_map] at hchars
      obtain ⟨k, hk⟩ := Option.isSome_iff_exists.mp hchars
      rw [Part.Stands, hk, Option.bind_some, Option.isSome_map]
      exact hvalue
    simpa using hboth
  | @fields field fields before t after more hbefore _ hafter _ ih ihmore =>
    have hboth : StandsIfPaired (.fields (consDenoted field fields)) (before ++ (t ++ after) ++ ',' :: more) :=
      (ih.spaced hbefore hafter id).separated ihmore (by decide) fun hfield hfields => isSome_consDenoted hfield hfields
    simpa using hboth

/-- A document in which surrogates are paired stands for something. -/
theorem Document.exists_of_surrogatesPaired {names : Bool} {denoted : Option Json} (h : Document names t denoted)
    (hpaired : SurrogatesPaired t) : ∃ j, denoted = some j := by
  obtain ⟨before, body, after, rfl, hbefore, hafter, hbody⟩ := h
  obtain ⟨points, hpoints, hstands⟩ := hbody.standsIfPaired.spaced hbefore hafter id
  have hall := hpoints []
  rw [List.append_nil, pointsOf, List.append_nil] at hall
  rw [SurrogatesPaired, hall] at hpaired
  exact Option.isSome_iff_exists.mp (hstands hpaired)

end Points

end SnippetTutor.Json
