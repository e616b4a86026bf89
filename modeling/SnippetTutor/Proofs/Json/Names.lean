import SnippetTutor.Proofs.Json.Reading
import SnippetTutor.Proofs.Json.Writing

/-! # The names of numbers that are not finite

Outside its strings a document of the standard has none of the two letters with which the names
start. So a document is written in the standard's grammar exactly if all of its numbers are finite.
-/
namespace SnippetTutor.Json
variable {t u b : Text}

/-- A text without its strings, from inside or outside of a string on. -/
def bare : Bool → Text → Text
  | _, [] => []
  | false, c :: rest => if c = '"' then bare true rest else c :: bare false rest
  | true, [_] => []
  | true, c :: d :: rest =>
    if c = '"' then bare false (d :: rest) else if c = '\\' then bare true rest else bare true (d :: rest)

/-- What the text leaves of itself without its strings, whatever follows. -/
def Leaves (t b : Text) : Prop := ∀ rest, bare false (t ++ rest) = b ++ bare false rest

def StartsName (c : Char) : Prop := c = 'N' ∨ c = 'I'

theorem leaves_of_unquoted (h : '"' ∉ t) : Leaves t t := by
  intro rest
  induction t with
  | nil => rfl
  | cons c cs ih =>
    obtain ⟨hc, hcs⟩ := not_or.mp (List.mem_cons.not.mp h)
    rw [List.cons_append, bare, if_neg (Ne.symm hc), ih hcs, List.cons_append]

theorem Leaves.append {b' : Text} (ht : Leaves t b) (hu : Leaves u b') : Leaves (t ++ u) (b ++ b') := by
  intro rest
  rw [List.append_assoc, ht, hu, List.append_assoc]

theorem bare_inside {c : Char} (hquote : c ≠ '"') (hslash : c ≠ '\\') (rest : Text) :
    bare true (c :: rest) = bare true rest := by
  cases rest with
  | nil => rfl
  | cons d more => rw [bare, if_neg hquote, if_neg hslash]

theorem bare_hexDigits {digits : Text} {values : List Nat} (h : digits.map Text.hexDigit? = values.map some)
    (rest : Text) : bare true (digits ++ rest) = bare true rest := by
  induction digits generalizing values with
  | nil => rfl
  | cons d ds ih =>
    cases values with
    | nil => cases h
    | cons v vs =>
      obtain ⟨hd, hds⟩ := List.cons_eq_cons.mp h
      have hquote : d ≠ '"' := by
        rintro rfl
        cases hd
      have hslash : d ≠ '\\' := by
        rintro rfl
        cases hd
      rw [List.cons_append, bare_inside hquote hslash, ih hds]

theorem bare_body {points : List Nat} (h : Body t points) (rest : Text) :
    bare true (t ++ '"' :: rest) = bare false rest := by
  induction h with
  | nil => cases rest <;> simp [bare]
  | plain hquote hslash _ _ ih => rw [List.cons_append, bare_inside hquote hslash, ih]
  | escape _ _ ih =>
    rw [List.cons_append, List.cons_append, bare, if_neg (by decide), if_pos rfl, ih]
  | unit hdigits _ _ ih =>
    rw [List.cons_append, List.cons_append, bare, if_neg (by decide), if_pos rfl, List.append_assoc,
      bare_hexDigits hdigits, ih]

theorem leaves_quotedBody {points : List Nat} (h : Body t points) : Leaves (quotedBody t) [] := by
  intro rest
  rw [quotedBody, List.cons_append, bare, if_pos rfl, List.append_assoc]
  exact bare_body h rest

theorem Leaves.eq_bare (h : Leaves t b) : bare false t = b := by
  simpa [bare] using h []

/-! ## What the standard allows -/

/-- No name stands outside the strings of the text. -/
def Nameless (t : Text) : Prop := ∃ b, Leaves t b ∧ ∀ c ∈ b, ¬ StartsName c

theorem nameless_of_unquoted (hquote : '"' ∉ t) (h : ∀ c ∈ t, ¬ StartsName c) : Nameless t :=
  ⟨t, leaves_of_unquoted hquote, h⟩

theorem Nameless.append (ht : Nameless t) (hu : Nameless u) : Nameless (t ++ u) := by
  obtain ⟨b, hb, hnone⟩ := ht
  obtain ⟨b', hb', hnone'⟩ := hu
  exact ⟨b ++ b', hb.append hb', List.forall_mem_append.mpr ⟨hnone, hnone'⟩⟩

theorem nameless_spaces (h : Spaces t) : Nameless t := by
  have hletter : ∀ d, isSpace d = false → d ∉ t := fun d hd hmem => Bool.false_ne_true (hd.symm.trans (h d hmem))
  refine nameless_of_unquoted (hletter '"' rfl) fun c hc => ?_
  rintro (rfl | rfl)
  · exact hletter 'N' rfl hc
  · exact hletter 'I' rfl hc

theorem Nameless.cons_mark {c : Char} (hquote : c ≠ '"') (hname : ¬ StartsName c) (ht : Nameless t) :
    Nameless (c :: t) := by
  have hmark : Nameless [c] := nameless_of_unquoted (by simpa using Ne.symm hquote) (by simpa using hname)
  exact hmark.append ht

theorem Nameless.enclosed {first last : Char} (hfirst : first ≠ '"' ∧ ¬ StartsName first)
    (hlast : last ≠ '"' ∧ ¬ StartsName last) (ht : Nameless t) : Nameless (first :: (t ++ [last])) :=
  (ht.append (.cons_mark hlast.1 hlast.2 (nameless_spaces spaces_nil))).cons_mark hfirst.1 hfirst.2

theorem Written.nameless {p : Part} (h : Written false p t) : Nameless t := by
  have hbracket : ∀ d ∈ ['[', ']', '\x7b', '\x7d', ',', ':'], d ≠ '"' ∧ ¬ StartsName d := by
    simp only [StartsName]
    decide
  induction h with
  | null => exact nameless_of_unquoted (by decide) (by simp only [StartsName]; decide)
  | bool b =>
    cases b with
    | true => exact nameless_of_unquoted (by decide) (by simp only [StartsName]; decide)
    | false => exact nameless_of_unquoted (by decide) (by simp only [StartsName]; decide)
  | numeral n =>
    have hother : ∀ d, ¬ Text.IsDigit d → d ∉ ['-', '+', '.', 'e', 'E'] → d ∉ n.text :=
      fun d hdigit hother hmem => (Numeral.mem_text_cases hmem).elim hdigit hother
    refine nameless_of_unquoted (hother '"' (by decide) (by decide)) fun c hc => ?_
    rintro (rfl | rfl)
    · exact hother 'N' (by decide) (by decide) hc
    · exact hother 'I' (by decide) (by decide) hc
  | nan h => cases h
  | infinite h => cases h
  | text h => exact ⟨[], leaves_quotedBody h, by simp⟩
  | emptyArray h => exact (nameless_spaces h).enclosed (hbracket _ (by decide)) (hbracket _ (by decide))
  | array _ ih => exact ih.enclosed (hbracket _ (by decide)) (hbracket _ (by decide))
  | emptyObject h => exact (nameless_spaces h).enclosed (hbracket _ (by decide)) (hbracket _ (by decide))
  | object _ ih => exact ih.enclosed (hbracket _ (by decide)) (hbracket _ (by decide))
  | lastItem hbefore _ hafter ih => exact (nameless_spaces hbefore).append (ih.append (nameless_spaces hafter))
  | lastField hbefore _ hafter ih => exact (nameless_spaces hbefore).append (ih.append (nameless_spaces hafter))
  | item hbefore _ hafter _ ih ihmore =>
    obtain ⟨hquote, hname⟩ := hbracket ',' (by decide)
    have hrest := (nameless_spaces hafter).append (ihmore.cons_mark hquote hname)
    exact (nameless_spaces hbefore).append (ih.append hrest)
  | fields hbefore _ hafter _ ih ihmore =>
    obtain ⟨hquote, hname⟩ := hbracket ',' (by decide)
    have hrest := (nameless_spaces hafter).append (ihmore.cons_mark hquote hname)
    exact (nameless_spaces hbefore).append (ih.append hrest)
  | field hkey hbefore hafter _ ih =>
    obtain ⟨hquote, hname⟩ := hbracket ':' (by decide)
    have hvalue := ((nameless_spaces hafter).append ih).cons_mark hquote hname
    exact Nameless.append ⟨[], leaves_quotedBody hkey, by simp⟩ ((nameless_spaces hbefore).append hvalue)

/-! ## What is written -/

/-- The text leaves something of itself, and a name in it if one of the numbers is not finite. -/
def Naming (xs : List Number) (t : Text) : Prop :=
  ∃ b, Leaves t b ∧ ((∃ x ∈ xs, ¬ x.IsFinite) → ∃ c ∈ b, StartsName c)

theorem naming_of_unquoted (h : '"' ∉ t) : Naming [] t := ⟨t, leaves_of_unquoted h, by simp⟩

theorem Naming.append {xs ys : List Number} (ht : Naming xs t) (hu : Naming ys u) : Naming (xs ++ ys) (t ++ u) := by
  obtain ⟨b, hb, hname⟩ := ht
  obtain ⟨b', hb', hname'⟩ := hu
  refine ⟨b ++ b', hb.append hb', ?_⟩
  rintro ⟨x, hx, hfinite⟩
  rcases List.mem_append.mp hx with hx | hx
  · obtain ⟨c, hc, hstart⟩ := hname ⟨x, hx, hfinite⟩
    exact ⟨c, List.mem_append_left _ hc, hstart⟩
  · obtain ⟨c, hc, hstart⟩ := hname' ⟨x, hx, hfinite⟩
    exact ⟨c, List.mem_append_right _ hc, hstart⟩

theorem naming_spaces (h : Spaces t) : Naming [] t :=
  naming_of_unquoted fun hmem => absurd (h '"' hmem) (by decide)

theorem naming_char {c : Char} (h : c ≠ '"') : Naming [] [c] := naming_of_unquoted (by simpa using Ne.symm h)

theorem naming_writeText (t : Text) : Naming [] (writeText t) := by
  rw [writeText_eq]
  exact ⟨[], leaves_quotedBody (body_escaped t), by simp⟩

theorem Naming.join {separator : Text} (hseparator : Naming [] separator) {xss : List (List Number)}
    {texts : List Text} (h : List.Forall₂ Naming xss texts) : Naming xss.flatten (Text.joinWith separator texts) := by
  induction h with
  | nil => exact naming_of_unquoted List.not_mem_nil
  | cons hfirst hrest ih =>
    cases hrest with
    | nil => simpa [Text.joinWith_singleton] using hfirst
    | cons =>
      rw [Text.joinWith_cons_cons]
      exact hfirst.append (hseparator.append ih)

theorem naming_enclose (layout : Layout) {opening closing : Char} (hopening : opening ≠ '"')
    (hclosing : closing ≠ '"') {xss : List (List Number)} {texts : List Text} (h : List.Forall₂ Naming xss texts) :
    Naming xss.flatten (enclose layout opening closing texts) := by
  have hbetween : Naming [] layout.between := by
    obtain ⟨gap, hgap, hbetween⟩ := between_eq layout
    rw [hbetween]
    exact (naming_char (by decide : ',' ≠ '"')).append (naming_spaces hgap)
  have hlast := (naming_spaces (spaces_after layout)).append (naming_char hclosing)
  have hall := (naming_char hopening).append ((naming_spaces (spaces_before layout)).append
    ((hbetween.join h).append hlast))
  unfold enclose
  split
  · next hempty =>
    cases h with
    | nil => exact (naming_char hopening).append (naming_char hclosing)
    | cons => cases hempty
  · simpa using hall

theorem numbersOfItems_eq (items : List Json) : numbersOfItems items = (items.map numbers).flatten := by
  induction items with
  | nil => rfl
  | cons item rest ih => simp [numbersOfItems, ih]

theorem numbersOfFields_eq (fields : List (Text × Json)) :
    numbersOfFields fields = (fields.map fun field => field.2.numbers).flatten := by
  induction fields with
  | nil => rfl
  | cons field rest ih => simp [numbersOfFields, ih]

/-- A numeral leaves itself, and a number that is not finite its name. -/
theorem naming_number (x : Number) : Naming [x] (writeNumber x) := by
  cases x with
  | nan => exact ⟨_, leaves_of_unquoted (by decide), fun _ => ⟨'N', by decide, Or.inl rfl⟩⟩
  | infinite negative =>
    cases negative <;> exact ⟨_, leaves_of_unquoted (by decide), fun _ => ⟨'I', by decide, Or.inr rfl⟩⟩
  | finite negative rank =>
    obtain ⟨n, htext, -⟩ := Number.exists_numeral_write negative rank
    obtain ⟨b, hb, -⟩ : Nameless n.text := (Written.numeral n).nameless
    have hwritten : writeNumber (.finite negative rank) = n.text := htext.symm
    rw [hwritten]
    exact ⟨b, hb, by simp [Number.IsFinite]⟩

theorem naming_int (i : Int) : Naming [] (Text.ofInt i) := by
  obtain ⟨n, htext, -⟩ := exists_numeral_ofInt i
  obtain ⟨b, hb, -⟩ : Nameless n.text := (Written.numeral n).nameless
  exact ⟨b, htext ▸ hb, by simp⟩

mutual

/-- A number that is not finite leaves its name, whatever the layout. -/
theorem naming_render (layout : Layout) (j : Json) : Naming j.numbers (render layout j) := by
  cases j with
  | null => exact naming_of_unquoted (by decide : '"' ∉ "null".toList)
  | bool b =>
    cases b with
    | true => exact naming_of_unquoted (by decide : '"' ∉ "true".toList)
    | false => exact naming_of_unquoted (by decide : '"' ∉ "false".toList)
  | int i => exact naming_int i
  | number x => exact naming_number x
  | text t => exact naming_writeText t
  | array items =>
    rw [numbers, numbersOfItems_eq]
    exact naming_enclose layout (by decide) (by decide) (naming_renderItems layout.inner items)
  | object fields =>
    rw [numbers, numbersOfFields_eq]
    exact naming_enclose layout (by decide) (by decide) (naming_renderFields layout.inner fields)

theorem naming_renderItems (layout : Layout) (items : List Json) :
    List.Forall₂ Naming (items.map numbers) (renderItems layout items) := by
  cases items with
  | nil => exact .nil
  | cons item rest => exact .cons (naming_render layout item) (naming_renderItems layout rest)

theorem naming_renderFields (layout : Layout) (fields : List (Text × Json)) :
    List.Forall₂ Naming (fields.map fun field => field.2.numbers) (renderFields layout fields) := by
  match fields with
  | [] => exact .nil
  | (key, value) :: rest =>
    have hcolon : Naming [] [':', ' '] := naming_of_unquoted (by decide)
    exact .cons (((naming_writeText key).append hcolon).append (naming_render layout value))
      (naming_renderFields layout rest)

end

theorem document_of_finite {names : Bool} {j : Json} (hkeys : j.Keyed)
    (h : ∀ x ∈ j.numbers, names = true ∨ x.IsFinite) : Document names j.pretty (some j) :=
  ⟨[], j.pretty, [], by simp, spaces_nil, spaces_nil, written_render _ j hkeys h⟩

/-- What is written is a document of the standard exactly if all numbers in it are finite. -/
theorem document_pretty_iff {j : Json} (hkeys : j.Keyed) :
    (∃ denoted, Document false j.pretty denoted) ↔ ∀ x ∈ j.numbers, x.IsFinite := by
  constructor
  · rintro ⟨denoted, before, body, after, hsplit, hbefore, hafter, hbody⟩ x hx
    have hnameless : Nameless j.pretty := by
      rw [hsplit]
      exact (nameless_spaces hbefore).append (hbody.nameless.append (nameless_spaces hafter))
    obtain ⟨b, hb, hnone⟩ := hnameless
    obtain ⟨b', hb', hname⟩ := naming_render (some 0) j
    by_cases hfinite : x.IsFinite
    · exact hfinite
    · obtain ⟨c, hc, hstart⟩ := hname ⟨x, hx, hfinite⟩
      rw [← hb'.eq_bare, show render (some 0) j = j.pretty from rfl, hb.eq_bare] at hc
      exact absurd hstart (hnone c hc)
  · intro h
    exact ⟨some j, document_of_finite hkeys fun x hx => Or.inr (h x hx)⟩

/-- With the names it is a document anyway, and stands for what it was written for. -/
theorem document_pretty {j : Json} (hkeys : j.Keyed) : Document true j.pretty (some j) :=
  document_of_finite hkeys fun _ _ => Or.inl rfl

end SnippetTutor.Json
