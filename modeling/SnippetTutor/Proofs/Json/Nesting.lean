import SnippetTutor.Literal
import SnippetTutor.Proofs.Json.Keys
import SnippetTutor.Proofs.Json.Names

/-! # Brackets bound the depth

A document is nested as deep as the arrays and objects in it. While it is read, each of them that is
still open has a bracket before it that is still open, so that no document is nested deeper than the
brackets are outside its strings.
-/
namespace SnippetTutor

namespace Json
variable {limits : Limits} {t : Text} {items : List Json} {fields : List (Text × Json)} {j : Json} {n : Nat}

mutual

/-- The levels of arrays and objects. -/
def depth : Json → Nat
  | .array items => depthOfItems items + 1
  | .object fields => depthOfFields fields + 1
  | .null | .bool _ | .int _ | .number _ | .text _ => 0

def depthOfItems : List Json → Nat
  | [] => 0
  | item :: rest => max (depth item) (depthOfItems rest)

def depthOfFields : List (Text × Json) → Nat
  | [] => 0
  | (_, value) :: rest => max (depth value) (depthOfFields rest)

end

theorem depth_of_simple (h : j.Simple) : j.depth = 0 := by
  cases j with
  | array | object => cases h
  | null | bool | int | number | text => rw [depth]

theorem depthOfItems_le_iff : depthOfItems items ≤ n ↔ ∀ item ∈ items, item.depth ≤ n := by
  induction items with
  | nil => simp [depthOfItems]
  | cons item rest ih => rw [depthOfItems, Nat.max_le, ih, List.forall_mem_cons]

theorem depthOfFields_le_iff : depthOfFields fields ≤ n ↔ ∀ field ∈ fields, field.2.depth ≤ n := by
  induction fields with
  | nil => simp [depthOfFields]
  | cons field rest ih => rw [depthOfFields, Nat.max_le, ih, List.forall_mem_cons]

end Json

namespace Literal
variable {depth limit : Int} {t : Text}

theorem nestingFrom_cons_plain {c : Char} (h : isQuote c = false) (depth : Int) (t : Text) :
    nestingFrom none depth (c :: t) = max (nestingAfter depth c) (nestingFrom none (nestingAfter depth c) t) := by
  simp [nestingFrom, Quote.isPlain, Quote.after, h]

theorem nestingFrom_nonneg (quote : Quote) (depth : Int) (t : Text) : 0 ≤ nestingFrom quote depth t := by
  induction t generalizing quote depth with
  | nil => exact Int.le_refl 0
  | cons c rest ih =>
    rw [nestingFrom]
    exact Int.le_trans (ih _ _) (Int.le_max_right _ _)

theorem nestingAfter_of_not_bracket {c : Char} (h : c ∉ ['[', ']', '\x7b', '\x7d']) (depth : Int) :
    nestingAfter depth c = depth := by
  simp only [List.mem_cons, not_or] at h
  simp [nestingAfter, h]

/-- Where there are no quotes, only the marks are counted. -/
theorem nestingFrom_filter_le (h : ∀ c ∈ t, isQuote c = false) (depth : Int) :
    nestingFrom none depth (t.filter Json.isMark) ≤ nestingFrom none depth t := by
  induction t generalizing depth with
  | nil => exact Int.le_refl _
  | cons c rest ih =>
    obtain ⟨hc, hrest⟩ := List.forall_mem_cons.mp h
    rw [nestingFrom_cons_plain hc, List.filter_cons]
    split
    · rw [nestingFrom_cons_plain hc]
      have hfiltered := ih hrest (nestingAfter depth c)
      omega
    · next hmark =>
      have hbracket : ∀ d ∈ ['[', ']', '\x7b', '\x7d'], Json.isMark d = true := by decide
      rw [nestingAfter_of_not_bracket (mt (hbracket c) hmark)]
      exact Int.le_trans (ih hrest depth) (Int.le_max_right _ _)

end Literal

namespace Json
variable {limits : Limits} {t : Text} {items : List Json} {fields : List (Text × Json)} {j : Json}

/-! ## The marks of a text -/

def Token.marks : Token → Text
  | .mark c => [c]
  | .text _ | .scalar _ => []

def marks (ts : List Token) : Text := ts.flatMap Token.marks

/-- What the scan will leave of a text without its strings. -/
def Scan.bare : Scan → Text → Text
  | .plain _, t => Json.bare false t
  | .quoted _, t | .coded _ _, t => Json.bare true t
  | .escaped _, t => Json.bare true ('\\' :: t)

theorem marks_append (ts us : List Token) : marks (ts ++ us) = marks ts ++ marks us := List.flatMap_append

theorem WordTokens.marks_eq_nil {word : Text} {ts : List Token} (h : WordTokens limits word ts) : marks ts = [] := by
  cases h <;> rfl

/-- What is neither a quote nor a mark does not matter between strings. -/
theorem filter_bare_cons {c : Char} (hquote : c ≠ '"') (hmark : ¬ isMark c = true) (t : Text) :
    (bare false (c :: t)).filter isMark = (bare false t).filter isMark := by
  rw [bare, if_neg hquote, List.filter_cons_of_neg hmark]

theorem bare_quote (t : Text) : bare true ('"' :: t) = bare false t := by
  cases t <;> simp [bare]

theorem bare_escape (c : Char) (t : Text) : bare true ('\\' :: c :: t) = bare true t := by
  simp [bare]

theorem bare_hexDigit {c : Char} {d : Nat} (h : Text.hexDigit? c = some d) (t : Text) :
    bare true (c :: t) = bare true t := by
  refine bare_inside ?_ ?_ t
  · rintro rfl
    cases h
  · rintro rfl
    cases h

theorem Scan.Moves.marks {s next : Scan} {c : Char} {ended : List Token} (h : s.Moves limits c ended next) (t : Text) :
    Json.marks ended ++ (next.bare t).filter isMark = (s.bare (c :: t)).filter isMark := by
  cases h with
  | word hc =>
    have hquote : c ≠ '"' := by
      rintro rfl
      exact absurd hc (by decide)
    have hmark : ¬ isMark c = true := fun h => Bool.false_ne_true ((mark_cases h).1.symm.trans hc)
    exact (filter_bare_cons hquote hmark t).symm
  | space hended hc =>
    have hquote : c ≠ '"' := by
      rintro rfl
      exact absurd hc (by decide)
    have hmark : ¬ isMark c = true := fun h => Bool.false_ne_true ((mark_cases h).2.1.symm.trans hc)
    rw [hended.marks_eq_nil]
    exact (filter_bare_cons hquote hmark t).symm
  | opening hended =>
    rw [hended.marks_eq_nil, Scan.bare, Scan.bare, Json.bare, if_pos rfl]
    rfl
  | mark hended hc =>
    rw [marks_append, hended.marks_eq_nil, Scan.bare, Scan.bare, Json.bare, if_neg (mark_cases hc).2.2,
      List.filter_cons_of_pos hc]
    rfl
  | closing => rw [Scan.bare, Scan.bare, bare_quote]; rfl
  | slash => rfl
  | inside hquote hslash => rw [Scan.bare, Scan.bare, bare_inside hquote hslash]; rfl
  | code | escape => rw [Scan.bare, Scan.bare, bare_escape]; rfl
  | digit hd | lastDigit hd => rw [Scan.bare, Scan.bare, bare_hexDigit hd]; rfl

/-- The tokens have the marks outside of strings, in their order. -/
theorem marks_scan {state : Scan} {ts : List Token} (h : scan limits state t = some ts) :
    marks ts = (state.bare t).filter isMark := by
  refine scan_induction (P := fun s t us => marks us = (s.bare t).filter isMark) ?_ ?_ h
  · intro word ended hended
    exact hended.marks_eq_nil
  · intro s c ended next t us hmoves ih
    rw [marks_append, ih, hmoves.marks]

/-! ## The levels that are open -/

def Token.levelAfter (level : Int) : Token → Int
  | .mark c => Literal.nestingAfter level c
  | .text _ | .scalar _ => level

/-- At a level, the values do not reach beyond the limit. -/
def Fits (limit level : Int) (values : List Json) : Prop := ∀ j ∈ values, j.depth + level ≤ limit

variable {limit level : Int}

theorem fits_array (hlevel : level ≤ limit) (h : Fits limit level items) : Fits limit (level - 1) [array items] := by
  have hitems : depthOfItems items ≤ (limit - level).toNat :=
    depthOfItems_le_iff.mpr fun item hitem => by
      have hfits := h item hitem
      omega
  intro j hj
  rw [List.mem_singleton.mp hj, depth]
  omega

theorem fits_object (hlevel : level ≤ limit) (h : Fits limit level (fields.map Prod.snd)) :
    Fits limit (level - 1) [object (Fields.ofList fields)] := by
  have hfields : depthOfFields (Fields.ofList fields) ≤ (limit - level).toNat :=
    depthOfFields_le_iff.mpr fun field hfield => by
      have hfits := h field.2 (List.mem_map_of_mem (Fields.mem_of_mem_ofList hfield))
      omega
  intro j hj
  rw [List.mem_singleton.mp hj, depth]
  omega

/-- A bracket whose array or object is not among the open ones yet. -/
def Awaits.opening : Awaits → Nat
  | .firstItem | .firstKey | .key _ | .colon _ _ => 1
  | .value | .separator _ => 0

def Awaits.values : Awaits → List Json
  | .key fields | .colon fields _ => fields.map Prod.snd
  | .separator done => [done]
  | .value | .firstItem | .firstKey => []

def Open.values : Open → List Json
  | .array items => items
  | .object fields _ => fields.map Prod.snd

/-- What an open array or object holds is a level higher than the array or object. -/
def StackFits (limit : Int) : List Open → Prop
  | [] => True
  | o :: outer => Fits limit (outer.length + 1) o.values ∧ StackFits limit outer

/-- The level is the number of brackets that are open. -/
structure Reading.Bounded (limit level : Int) (r : Reading) : Prop where
  level_eq : level = r.stack.length + r.awaits.opening
  level_le : level ≤ limit
  awaits : Fits limit level r.awaits.values
  stack : StackFits limit r.stack

namespace Reading
variable {r s : Reading} {u : Token} {stack : List Open}

theorem fits_nil (limit level : Int) : Fits limit level [] := fun _ hj => absurd hj List.not_mem_nil

theorem fits_simple (hlevel : level ≤ limit) (h : j.Simple) : Fits limit level [j] := by
  intro i hi
  rw [List.mem_singleton.mp hi, depth_of_simple h]
  simpa using hlevel

theorem bounded_startsValue {awaits : Awaits} (hr : Bounded limit level ⟨.value, stack⟩) (hu : u.Simple)
    (hlevel : u.levelAfter level ≤ limit) (h : StartsValue u awaits) :
    Bounded limit (u.levelAfter level) ⟨awaits, stack⟩ := by
  have hstack : level = stack.length := by simpa [Awaits.opening] using hr.level_eq
  cases h with
  | scalar => exact ⟨hr.level_eq, hlevel, fits_simple hlevel hu, hr.stack⟩
  | text => exact ⟨hr.level_eq, hlevel, fits_simple hlevel trivial, hr.stack⟩
  | array | object => exact ⟨congrArg (· + 1) hstack, hlevel, fits_nil _ _, hr.stack⟩

theorem fits_reverse {values : List Json} (h : Fits limit level values) : Fits limit level values.reverse :=
  fun value hvalue => h value (List.mem_reverse.mp hvalue)

/-- A value that is complete belongs to the innermost open array or object. -/
theorem fits_done {done : Json} {o : Open} {outer : List Open}
    (hr : Bounded limit level ⟨.separator done, o :: outer⟩) : Fits limit level (done :: o.values) := by
  have hlevel : level = (o :: outer).length := by simpa [Awaits.opening] using hr.level_eq
  refine List.forall_mem_cons.mpr ⟨hr.awaits done List.mem_cons_self, ?_⟩
  rw [hlevel]
  exact hr.stack.1

/-- An array or object that is closed is complete, a level below what it holds. -/
theorem bounded_closed {whole : Json} (hlevel : level = stack.length + 1) (hle : level ≤ limit)
    (hwhole : Fits limit (level - 1) [whole]) (hstack : StackFits limit stack) :
    Bounded limit (level - 1) ⟨.separator whole, stack⟩ where
  level_eq := by
    rw [hlevel, Int.add_sub_cancel]
    exact (Int.add_zero _).symm
  level_le := Int.le_trans (Int.sub_le_self level (by decide)) hle
  awaits := hwhole
  stack := hstack

/-- An array or object that is complete without an item in it. -/
theorem fits_empty (hlevel : level ≤ limit) : Fits limit (level - 1) [array []] ∧ Fits limit (level - 1) [object []] := by
  have hnone : Fits limit level (([] : List (Text × Json)).map Prod.snd) := fits_nil limit level
  exact ⟨fits_array hlevel (fits_nil limit level), fits_object hlevel hnone⟩

/-- What a token does to the open brackets it does to the arrays and objects that are open. -/
theorem Bounded.moves (hr : Bounded limit level r) (hu : u.Simple) (hlevel : u.levelAfter level ≤ limit)
    (h : r.Moves limits u s) : Bounded limit (u.levelAfter level) s := by
  have hopen := hr.level_eq
  cases h with
  | value hstarts => exact bounded_startsValue hr hu hlevel hstarts
  | emptyArray => exact bounded_closed hopen hr.level_le (fits_empty hr.level_le).1 hr.stack
  | @firstItem stack _ _ _ hstarts =>
    have hopened : Bounded limit level ⟨.value, .array [] :: stack⟩ :=
      ⟨hopen, hr.level_le, fits_nil _ _, fits_nil _ _, hr.stack⟩
    exact bounded_startsValue hopened hu hlevel hstarts
  | emptyObject => exact bounded_closed hopen hr.level_le (fits_empty hr.level_le).2 hr.stack
  | firstKey => exact ⟨hopen, hlevel, fits_nil _ _, hr.stack⟩
  | key => exact ⟨hopen, hlevel, hr.awaits, hr.stack⟩
  | colon =>
    have hfields := hr.awaits
    rw [hopen] at hfields
    exact ⟨hopen, hr.level_le, fits_nil _ _, hfields, hr.stack⟩
  | nextItem =>
    have hfits := fits_done hr
    rw [hopen] at hfits
    exact ⟨hopen, hr.level_le, fits_nil _ _, hfits, hr.stack.2⟩
  | closeArray =>
    exact bounded_closed hopen hr.level_le (fits_array hr.level_le (fits_reverse (fits_done hr))) hr.stack.2
  | nextField => exact ⟨hopen, hr.level_le, fits_done hr, hr.stack.2⟩
  | closeObject =>
    refine bounded_closed hopen hr.level_le (fits_object hr.level_le ?_) hr.stack.2
    rw [List.map_reverse]
    exact fits_reverse (fits_done hr)

/-- Over a whole run the levels are those that are counted in the marks. -/
theorem Bounded.foldlM {ts : List Token} (hr : Bounded limit level r) (hts : ∀ u ∈ ts, u.Simple)
    (hmarks : ∀ c ∈ marks ts, isQuote c = false) (hlimit : Literal.nestingFrom none level (marks ts) ≤ limit)
    (h : ts.foldlM (Reading.step limits) r = some s) : ∃ last, Bounded limit last s := by
  induction ts generalizing r level with
  | nil =>
    cases h
    exact ⟨level, hr⟩
  | cons u rest ih =>
    obtain ⟨hu, hrest⟩ := List.forall_mem_cons.mp hts
    rw [List.foldlM_cons] at h
    obtain ⟨next, hnext, h⟩ := Option.bind_eq_some_iff.mp h
    obtain ⟨hfirst, hmore⟩ := List.forall_mem_append.mp hmarks
    have hcount : u.levelAfter level ≤ limit ∧ Literal.nestingFrom none (u.levelAfter level) (marks rest) ≤ limit := by
      cases u with
      | mark c =>
        have hplain : isQuote c = false := hfirst c List.mem_cons_self
        have hcons : Literal.nestingFrom none level (c :: marks rest) ≤ limit := hlimit
        rw [Literal.nestingFrom_cons_plain hplain] at hcons
        exact ⟨Int.le_trans (Int.le_max_left _ _) hcons, Int.le_trans (Int.le_max_right _ _) hcons⟩
      | text | scalar => exact ⟨hr.level_le, hlimit⟩
    exact ih (hr.moves hu hcount.1 (moves_of_step hnext)) hrest hmore hcount.2 h

end Reading

theorem mem_of_mem_bare {inside : Bool} {c : Char} (h : c ∈ bare inside t) : c ∈ t ∧ c ≠ '"' := by
  induction inside, t using bare.induct with
  | case1 => cases h
  | case2 rest ih =>
    rw [bare, if_pos rfl] at h
    exact (ih h).imp_left (List.mem_cons_of_mem _)
  | case3 d rest hd ih =>
    rw [bare, if_neg hd] at h
    rcases List.mem_cons.mp h with rfl | h
    · exact ⟨List.mem_cons_self, hd⟩
    · exact (ih h).imp_left (List.mem_cons_of_mem _)
  | case4 => cases h
  | case5 d rest ih =>
    rw [bare, if_pos rfl] at h
    exact (ih h).imp_left (List.mem_cons_of_mem _)
  | case6 d rest _ ih =>
    rw [bare_escape] at h
    exact (ih h).imp_left fun hmem => List.mem_cons_of_mem _ (List.mem_cons_of_mem _ hmem)
  | case7 e d rest hquote hslash ih =>
    rw [bare, if_neg hquote, if_neg hslash] at h
    exact (ih h).imp_left (List.mem_cons_of_mem _)

/-- A document that is read is nested at most as deep as the brackets are outside its strings. -/
theorem depth_le_of_read? (hquote : '\'' ∉ t) (h : read? limits t = some j) :
    (j.depth : Int) ≤ Literal.nesting (bare false t) := by
  obtain ⟨ts, hts, hr⟩ := exists_tokens_of_read? h
  have hplain : ∀ c ∈ bare false t, isQuote c = false := by
    intro c hc
    obtain ⟨hmem, hdouble⟩ := mem_of_mem_bare hc
    have hsingle : c ≠ '\'' := by
      rintro rfl
      exact hquote hmem
    simp [isQuote, hsingle, hdouble]
  have hmarks : marks ts = (bare false t).filter isMark := marks_scan hts
  have hcount : Literal.nestingFrom none 0 (marks ts) ≤ Literal.nesting (bare false t) := by
    rw [hmarks]
    exact Literal.nestingFrom_filter_le hplain 0
  have hstart : Reading.Bounded (Literal.nesting (bare false t)) 0 .start :=
    ⟨rfl, Literal.nestingFrom_nonneg _ _ _, Reading.fits_nil _ _, trivial⟩
  obtain ⟨last, hlast⟩ := hstart.foldlM (simple_scan hts)
    (by rw [hmarks]; exact fun c hc => hplain c (List.mem_of_mem_filter hc)) hcount hr
  have hlevel : last = 0 := hlast.level_eq
  have hdepth := hlast.awaits j List.mem_cons_self
  omega

end Json

end SnippetTutor
