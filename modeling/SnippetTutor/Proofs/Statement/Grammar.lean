import Mathlib.Data.List.DropRight
import Mathlib.Data.List.Infix
import Mathlib.Order.WellFounded
import SnippetTutor.Proofs.Statement.Shape
import SnippetTutor.Proofs.Text.Split

/-! # The grammar of the shapes

Each shape is a decomposition of the text into names, blanks, fixed marks and one part that may be
anything. A text decomposes in at most one way into a shape of a given kind, and where it decomposes
into shapes of several kinds the reader takes the first kind in a fixed order. The grammar is that of a
single line: a text with a line feed in it is not told apart here.
-/
namespace SnippetTutor

namespace Text
variable {c : Char} {name tail body rest t w : Text}

def Blanks (t : Text) : Prop := ∀ c ∈ t, isBlank c = true

instance (t : Text) : Decidable (Blanks t) := inferInstanceAs (Decidable (∀ c ∈ t, isBlank c = true))

theorem blanks_nil : Blanks [] := List.forall_mem_nil _

/-- A letter of the ASCII range or an underscore, and then word characters. -/
def IsName (t : Text) : Prop :=
  ∃ c rest, t = c :: rest ∧ isNameStart c = true ∧ ∀ d ∈ rest, isWordChar d = true

theorem ne_nil_of_isName {t : Text} (h : IsName t) : t ≠ [] := by
  obtain ⟨c, rest, rfl, -⟩ := h
  exact List.cons_ne_nil c rest

theorem Intervals.exists_of_has {intervals : Intervals} {n : Nat} (h : intervals.has n = true) :
    ∃ i ∈ intervals, i.1 ≤ n ∧ n ≤ i.2 := by
  induction intervals with
  | nil => cases h
  | cons i rest ih =>
    simp only [Intervals.has, Bool.and_eq_true, Bool.or_eq_true, decide_eq_true_eq] at h
    obtain ⟨hlow, hhigh | hrest⟩ := h
    · exact ⟨i, List.mem_cons_self, hlow, hhigh⟩
    · obtain ⟨j, hj, hn⟩ := ih hrest
      exact ⟨j, List.mem_cons_of_mem i hj, hn⟩

/-- What holds of all points of the table holds of every blank. -/
theorem of_isBlank {P : Nat → Prop}
    (hpoints : ∀ i ∈ blankPoints, ∀ n ∈ List.range' i.1 (i.2 - i.1 + 1), P n)
    (h : isBlank c = true) : P c.toNat := by
  obtain ⟨i, hi, hlow, hhigh⟩ := Intervals.exists_of_has h
  apply hpoints i hi
  rw [List.mem_range'_1]
  omega

theorem not_isWordChar_of_isBlank (h : isBlank c = true) : isWordChar c = false :=
  of_isBlank (P := fun n => wordPoints.has n = false) (by decide +kernel) h

theorem not_isBlank_of_isNameStart (h : isNameStart c = true) : isBlank c = false := by
  rw [← Bool.not_eq_true]
  intro hblank
  have hstart := of_isBlank (P := fun n => isNameStart (Char.ofNat n) = false) (by decide +kernel) hblank
  rw [Char.ofNat_toNat, h] at hstart
  cases hstart

theorem ne_of_class {p : Char → Bool} {c d : Char} (hc : p c = true) (hd : p d = false) : c ≠ d := by
  rintro rfl
  exact Bool.false_ne_true (hd.symm.trans hc)

theorem not_mem_of_isName (hstart : isNameStart c = false) (hword : isWordChar c = false) {name : Text}
    (h : IsName name) : c ∉ name := by
  obtain ⟨d, rest, rfl, hd, hrest⟩ := h
  refine List.not_mem_cons_of_ne_of_not_mem (ne_of_class hd hstart).symm fun hmem => ?_
  exact ne_of_class (hrest c hmem) hword rfl

/-- What is left after the blanks in front starts with a visible character. -/
theorem trimLeft_eq_cons_iff (hc : isBlank c = false) :
    trimLeft t = c :: rest ↔ ∃ w, Blanks w ∧ t = w ++ c :: rest := by
  constructor
  · intro h
    refine ⟨t.takeWhile isBlank, fun d hd => List.mem_takeWhile_imp hd, ?_⟩
    rw [← h, trimLeft, List.takeWhile_append_dropWhile]
  · rintro ⟨w, hw, rfl⟩
    rw [trimLeft, List.dropWhile_append_of_pos hw, List.dropWhile_cons_of_neg (by simp [hc])]

theorem trimRight_eq_concat_iff (hc : isBlank c = false) :
    trimRight t = body ++ [c] ↔ ∃ w, Blanks w ∧ t = body ++ c :: w := by
  have hreverse : trimLeft t.reverse = c :: body.reverse ↔ ∃ w, Blanks w ∧ t.reverse = w ++ c :: body.reverse :=
    trimLeft_eq_cons_iff hc
  rw [trimRight, List.reverse_eq_iff, List.reverse_append, List.reverse_singleton, List.singleton_append]
  refine hreverse.trans ⟨?_, ?_⟩
  · rintro ⟨w, hw, h⟩
    refine ⟨w.reverse, fun d hd => hw d (List.mem_reverse.mp hd), ?_⟩
    rw [← List.reverse_reverse t, h]
    simp
  · rintro ⟨w, hw, rfl⟩
    exact ⟨w.reverse, fun d hd => hw d (List.mem_reverse.mp hd), by simp⟩

/-- A text that starts and ends with visible characters is trimmed. -/
theorem trim_of_ends {t : Text} {c d : Char} (hhead : t.head? = some c) (hc : isBlank c = false)
    (hlast : t.getLast? = some d) (hd : isBlank d = false) : trim t = t := by
  obtain ⟨rest, hrest⟩ := List.head?_eq_some_iff.mp hhead
  have hleft : trimLeft t = t := by
    rw [hrest]
    exact (trimLeft_eq_cons_iff hc).mpr ⟨[], blanks_nil, rfl⟩
  rw [trim, hleft, ← List.dropLast_append_getLast? d hlast]
  exact (trimRight_eq_concat_iff hd).mpr ⟨[], blanks_nil, rfl⟩

theorem not_isBlank_of_mem_name (h : IsName name) : ∀ d ∈ name, isBlank d = false := by
  obtain ⟨c, rest, rfl, hc, hrest⟩ := h
  refine List.forall_mem_cons.mpr ⟨not_isBlank_of_isNameStart hc, fun d hd => ?_⟩
  rw [← Bool.not_eq_true]
  intro hblank
  exact Bool.false_ne_true ((not_isWordChar_of_isBlank hblank).symm.trans (hrest d hd))

theorem trim_name (h : IsName name) : trim name = name := by
  have hvisible := not_isBlank_of_mem_name h
  obtain ⟨c, rest, rfl, -⟩ := h
  have hlast := List.getLast?_eq_some_getLast (List.cons_ne_nil c rest)
  exact trim_of_ends rfl (hvisible c List.mem_cons_self) hlast (hvisible _ (List.getLast_mem _))

end Text

/-- The place of a kind in the order in which the shapes of a text are tried. -/
def StatementKind.place : StatementKind → Nat
  | .functionHeader => 0
  | .assignment => 1
  | .printCall => 2
  | .methodCall => 3
  | .plainCall => 4
  | .blank | .comment | .functionBodyLine | .unrecognized => 5

namespace Shape
open Text
variable {t tail name params argument arguments object action expr : Text} {shape : Shape}

/-- A name in front ends where the word characters end. -/
theorem nameAt?_eq_some_iff : nameAt? t = some (name, tail) ↔
    IsName name ∧ t = name ++ tail ∧ ∀ c ∈ tail.head?, isWordChar c = false := by
  constructor
  · intro h
    cases t with
    | nil => cases h
    | cons c rest =>
      rw [nameAt?] at h
      split at h
      · next hc =>
        cases h
        refine ⟨⟨c, _, rfl, hc, fun d hd => List.mem_takeWhile_imp hd⟩, ?_, ?_⟩
        · rw [List.cons_append, List.takeWhile_append_dropWhile]
        · intro d hd
          have hhead := List.head?_dropWhile_not isWordChar rest
          rw [hd] at hhead
          simpa using hhead
      · cases h
  · rintro ⟨⟨c, rest, rfl, hc, hword⟩, rfl, hhead⟩
    have hstop : tail.takeWhile isWordChar = [] ∧ tail.dropWhile isWordChar = tail := by
      cases tail with
      | nil => exact ⟨rfl, rfl⟩
      | cons d more => simp [hhead d rfl]
    rw [List.cons_append, nameAt?, if_pos hc, List.takeWhile_append_of_pos hword,
      List.dropWhile_append_of_pos hword, hstop.1, hstop.2, List.append_nil]

/-- An argument text in parentheses, with blanks before and after it. -/
def Encloses (argument t : Text) : Prop :=
  ∃ before after, Blanks before ∧ Blanks after ∧ t = before ++ '(' :: (argument ++ ')' :: after)

theorem enclosed?_eq_some_iff (ht : '\n' ∉ t) :
    enclosed? t = some argument ↔ ∃ after, Blanks after ∧ t = '(' :: (argument ++ ')' :: after) := by
  constructor
  · intro h
    unfold enclosed? at h
    split at h
    · next rest =>
      simp only [Option.ite_none_right_eq_some, Option.some.injEq] at h
      obtain ⟨⟨hlast, -⟩, hbody⟩ := h
      have hconcat : trimRight rest = argument ++ [')'] := by
        rw [← hbody]
        exact (List.dropLast_append_getLast? _ hlast).symm
      obtain ⟨after, hafter, rfl⟩ := (trimRight_eq_concat_iff (by decide)).mp hconcat
      exact ⟨after, hafter, rfl⟩
    · cases h
  · rintro ⟨after, hafter, rfl⟩
    have hbody : trimRight (argument ++ ')' :: after) = argument ++ [')'] :=
      (trimRight_eq_concat_iff (by decide)).mpr ⟨after, hafter, rfl⟩
    have hline : '\n' ∉ argument := fun hmem => ht (by simp [hmem])
    simp [enclosed?, hbody, hline]

theorem arguments?_eq_some_iff (ht : '\n' ∉ t) : arguments? t = some argument ↔ Encloses argument t := by
  have hopen : isBlank '(' = false := by decide
  have htrim : '\n' ∉ trimLeft t := fun hmem => ht (List.dropWhile_sublist _ |>.subset hmem)
  rw [arguments?, enclosed?_eq_some_iff htrim]
  constructor
  · rintro ⟨after, hafter, h⟩
    obtain ⟨before, hbefore, rfl⟩ := (trimLeft_eq_cons_iff hopen).mp h
    exact ⟨before, after, hbefore, hafter, rfl⟩
  · rintro ⟨before, after, hbefore, hafter, rfl⟩
    exact ⟨after, hafter, (trimLeft_eq_cons_iff hopen).mpr ⟨before, hbefore, rfl⟩⟩

/-- A text and the parts of a shape in it. Their blanks are not yet trimmed. -/
inductive Decomposes (t : Text) : Shape → Prop
  | header {gap name params call last : Text} (hgap : gap ≠ []) (hblanks : Blanks gap) (hname : IsName name)
      (hcall : Encloses params call) (hlast : Blanks last)
      (ht : t = "def".toList ++ (gap ++ (name ++ (call ++ ':' :: last)))) : Decomposes t (.header name params)
  | assignment {name gap expr : Text} (hname : IsName name) (hblanks : Blanks gap) (hne : expr ≠ [])
      (hsign : expr.head? ≠ some '=') (ht : t = name ++ (gap ++ '=' :: expr)) : Decomposes t (.assignment name expr)
  | print {argument call : Text} (hcall : Encloses argument call) (ht : t = "print".toList ++ call) :
      Decomposes t (.print argument)
  | method {object action arguments call : Text} (hobject : IsName object) (haction : IsName action)
      (hcall : Encloses arguments call) (ht : t = object ++ '.' :: (action ++ call)) :
      Decomposes t (.method object action arguments)
  | call {name arguments call : Text} (hname : IsName name) (hcall : Encloses arguments call)
      (ht : t = name ++ call) : Decomposes t (.call name arguments)

/-- Names hold no blanks, so that only the last part of a shape is to be trimmed. -/
def trimmed : Shape → Shape
  | .header name params => .header name (trim params)
  | .assignment name expr => .assignment name (trim expr)
  | .print argument => .print (trim argument)
  | .method object action arguments => .method object action (trim arguments)
  | .call name arguments => .call name (trim arguments)
  | .unrecognized => .unrecognized

section Readers
variable {raw : Shape}

theorem head?_of_encloses (h : Encloses argument t) : ∀ c ∈ t.head?, c = '(' ∨ isBlank c = true := by
  obtain ⟨before, after, hbefore, -, rfl⟩ := h
  intro c hc
  cases before with
  | nil => exact Or.inl (Option.some.inj hc).symm
  | cons d rest =>
    obtain rfl : d = c := Option.some.inj hc
    exact Or.inr (hbefore d List.mem_cons_self)

/-- A call goes on behind the name that stands before it, and not in the name. -/
theorem nameAt?_of_encloses_append (hname : IsName name) (hcall : Encloses argument tail) (more : Text) :
    nameAt? (name ++ (tail ++ more)) = some (name, tail ++ more) := by
  refine nameAt?_eq_some_iff.mpr ⟨hname, rfl, ?_⟩
  intro c hc
  have hne : tail ≠ [] := by
    obtain ⟨before, after, -, -, rfl⟩ := hcall
    simp
  rw [List.head?_append_of_ne_nil _ hne] at hc
  rcases head?_of_encloses hcall c hc with rfl | hblank
  · decide +kernel
  · exact not_isWordChar_of_isBlank hblank

theorem nameAt?_of_encloses (hname : IsName name) (hcall : Encloses argument tail) :
    nameAt? (name ++ tail) = some (name, tail) := by
  have h := nameAt?_of_encloses_append hname hcall []
  rwa [List.append_nil] at h

theorem nameAt?_of_dot (hname : IsName name) (rest : Text) :
    nameAt? (name ++ '.' :: rest) = some (name, '.' :: rest) := by
  refine nameAt?_eq_some_iff.mpr ⟨hname, rfl, ?_⟩
  intro c hc
  obtain rfl : '.' = c := Option.some.inj hc
  decide +kernel

theorem nameAt?_of_sign {gap : Text} (hname : IsName name) (hgap : Blanks gap) :
    nameAt? (name ++ (gap ++ '=' :: expr)) = some (name, gap ++ '=' :: expr) := by
  refine nameAt?_eq_some_iff.mpr ⟨hname, rfl, ?_⟩
  intro c hc
  cases gap with
  | nil =>
    obtain rfl : '=' = c := Option.some.inj hc
    decide +kernel
  | cons d rest =>
    obtain rfl : d = c := Option.some.inj hc
    exact not_isWordChar_of_isBlank (hgap d List.mem_cons_self)

/-- On one line the right-hand side of an assignment is all that follows the sign. -/
theorem expression?_eq_some_iff (ht : '\n' ∉ t) : expression? t = some expr ↔
    t ≠ [] ∧ t.head? ≠ some '=' ∧ expr = trim t := by
  have hfinal : dropFinalNewline t = t := by
    rw [dropFinalNewline, if_neg]
    exact fun hlast => ht (List.mem_of_getLast? hlast)
  rw [expression?, hfinal, splitOn_of_not_mem '\n' ht]
  by_cases hsign : t.head? = some '='
  · simp [hsign]
  · by_cases hne : t = []
    · simp [hne]
    · simp [hsign, hne, eq_comm]

/-- What stands before the parameters of a header, given what follows its first word. -/
theorem named_iff {rest : Text} :
    (startsBlank rest = true ∧ nameAt? (trimLeft rest) = some (name, tail)) ↔
      nameAt? (name ++ tail) = some (name, tail) ∧
        ∃ gap, gap ≠ [] ∧ Blanks gap ∧ rest = gap ++ (name ++ tail) := by
  constructor
  · rintro ⟨hblank, hname⟩
    obtain ⟨hn, hleft, -⟩ := nameAt?_eq_some_iff.mp hname
    rw [hleft] at hname
    refine ⟨hname, rest.takeWhile isBlank, ?_, fun d hd => List.mem_takeWhile_imp hd, ?_⟩
    · cases rest with
      | nil => cases hblank
      | cons c more =>
        have hc : isBlank c = true := hblank
        simp [hc]
    · rw [← hleft, trimLeft, List.takeWhile_append_dropWhile]
  · rintro ⟨hname, gap, hne, hgap, rfl⟩
    obtain ⟨c, more, rfl⟩ := List.exists_cons_of_ne_nil hne
    refine ⟨hgap c List.mem_cons_self, ?_⟩
    obtain ⟨⟨d, letters, hletters, hd, -⟩, -, -⟩ := nameAt?_eq_some_iff.mp hname
    have hleft : trimLeft (c :: more ++ (name ++ tail)) = name ++ tail := by
      rw [hletters, List.cons_append]
      exact (trimLeft_eq_cons_iff (not_isBlank_of_isNameStart hd)).mpr ⟨c :: more, hgap, rfl⟩
    rw [hleft, hname]

/-- What stands behind the name of a header. -/
theorem opened_iff (ht : '\n' ∉ tail) :
    ((trimRight tail).getLast? = some ':' ∧ arguments? (trimRight tail).dropLast = some params) ↔
      ∃ call last, Encloses params call ∧ Blanks last ∧ tail = call ++ ':' :: last := by
  have hcolon : isBlank ':' = false := by decide
  constructor
  · rintro ⟨hlast, hparams⟩
    obtain ⟨last, hblanks, htail⟩ :=
      (trimRight_eq_concat_iff hcolon).mp (List.dropLast_append_getLast? _ hlast).symm
    have hcall : '\n' ∉ (trimRight tail).dropLast := by
      rw [htail, List.mem_append, not_or] at ht
      exact ht.1
    exact ⟨_, last, (arguments?_eq_some_iff hcall).mp hparams, hblanks, htail⟩
  · rintro ⟨call, last, hcall, hlast, rfl⟩
    rw [List.mem_append, not_or] at ht
    rw [(trimRight_eq_concat_iff hcolon).mpr ⟨last, hlast, rfl⟩, List.getLast?_concat, List.dropLast_concat]
    exact ⟨rfl, (arguments?_eq_some_iff ht.1).mpr hcall⟩

/-! What the readers see of a text that decomposes. -/

theorem parts_of_header (ht : '\n' ∉ t) (h : Decomposes t (.header name params)) :
    ∃ rest tail, "def".toList.isPrefixOf? t = some rest ∧ startsBlank rest = true ∧
      nameAt? (trimLeft rest) = some (name, tail) ∧ (trimRight tail).getLast? = some ':' ∧
      arguments? (trimRight tail).dropLast = some params := by
  cases h with
  | @header gap name params call last hne hgap hname hcall hlast h =>
    subst h
    simp only [List.mem_append, not_or] at ht
    have htail : '\n' ∉ call ++ ':' :: last := by
      rw [List.mem_append, not_or]
      exact ht.2.2.2
    have hfound := nameAt?_of_encloses_append hname hcall (':' :: last)
    obtain ⟨hblank, hstart⟩ := named_iff.mpr ⟨hfound, gap, hne, hgap, rfl⟩
    obtain ⟨hcolon, hparams⟩ := (opened_iff htail).mpr ⟨call, last, hcall, hlast, rfl⟩
    exact ⟨_, _, List.isPrefixOf?_eq_some_iff_append_eq.mpr rfl, hblank, hstart, hcolon, hparams⟩

theorem parts_of_assignment (h : Decomposes t (.assignment name expr)) :
    ∃ tail, nameAt? t = some (name, tail) ∧ trimLeft tail = '=' :: expr ∧ expr ≠ [] ∧
      expr.head? ≠ some '=' := by
  cases h with
  | @assignment name gap expr hname hgap hne hsign h =>
    subst h
    exact ⟨_, nameAt?_of_sign hname hgap, (trimLeft_eq_cons_iff (by decide)).mpr ⟨gap, hgap, rfl⟩, hne, hsign⟩

theorem parts_of_print (ht : '\n' ∉ t) (h : Decomposes t (.print argument)) :
    ∃ rest, "print".toList.isPrefixOf? t = some rest ∧ arguments? rest = some argument := by
  cases h with
  | @print argument call hcall h =>
    subst h
    rw [List.mem_append, not_or] at ht
    exact ⟨call, List.isPrefixOf?_eq_some_iff_append_eq.mpr rfl, (arguments?_eq_some_iff ht.2).mpr hcall⟩

theorem parts_of_method (ht : '\n' ∉ t) (h : Decomposes t (.method object action arguments)) :
    methodParts? t = some (object, action, arguments) := by
  cases h with
  | @method object action arguments call hobject haction hcall h =>
    subst h
    simp only [List.mem_append, List.mem_cons, not_or] at ht
    have harguments := (arguments?_eq_some_iff ht.2.2.2).mpr hcall
    simp [methodParts?, nameAt?_of_dot hobject, nameAt?_of_encloses haction hcall, harguments]

theorem parts_of_call (ht : '\n' ∉ t) (h : Decomposes t (.call name arguments)) :
    ∃ tail, nameAt? t = some (name, tail) ∧ arguments? tail = some arguments := by
  cases h with
  | @call name arguments tail hname hcall h =>
    subst h
    rw [List.mem_append, not_or] at ht
    exact ⟨tail, nameAt?_of_encloses hname hcall, (arguments?_eq_some_iff ht.2).mpr hcall⟩

/-- A text decomposes in one way only into a shape of a given kind. -/
theorem decomposes_unique {raw other : Shape} (ht : '\n' ∉ t) (h : Decomposes t raw)
    (hother : Decomposes t other) (hkind : raw.kind = other.kind) : raw = other := by
  cases raw with
  | header name params =>
    cases other with
    | header name' params' =>
      obtain ⟨rest, tail, hfront, -, hname, -, hparams⟩ := parts_of_header ht h
      obtain ⟨rest', tail', hfront', -, hname', -, hparams'⟩ := parts_of_header ht hother
      obtain rfl : rest = rest' := Option.some.inj (hfront.symm.trans hfront')
      obtain ⟨rfl, rfl⟩ := Prod.mk.inj (Option.some.inj (hname.symm.trans hname'))
      obtain rfl : params = params' := Option.some.inj (hparams.symm.trans hparams')
      rfl
    | assignment | print | method | call | unrecognized => cases hkind
  | assignment name expr =>
    cases other with
    | assignment name' expr' =>
      obtain ⟨tail, hname, hexpr, -⟩ := parts_of_assignment h
      obtain ⟨tail', hname', hexpr', -⟩ := parts_of_assignment hother
      obtain ⟨rfl, rfl⟩ := Prod.mk.inj (Option.some.inj (hname.symm.trans hname'))
      obtain rfl : expr = expr' := (List.cons.inj (hexpr.symm.trans hexpr')).2
      rfl
    | header | print | method | call | unrecognized => cases hkind
  | print argument =>
    cases other with
    | print argument' =>
      obtain ⟨rest, hfront, hargument⟩ := parts_of_print ht h
      obtain ⟨rest', hfront', hargument'⟩ := parts_of_print ht hother
      obtain rfl : rest = rest' := Option.some.inj (hfront.symm.trans hfront')
      obtain rfl : argument = argument' := Option.some.inj (hargument.symm.trans hargument')
      rfl
    | header | assignment | method | call | unrecognized => cases hkind
  | method object action arguments =>
    cases other with
    | method object' action' arguments' =>
      have hparts := Option.some.inj ((parts_of_method ht h).symm.trans (parts_of_method ht hother))
      cases hparts
      rfl
    | header | assignment | print | call | unrecognized => cases hkind
  | call name arguments =>
    cases other with
    | call name' arguments' =>
      obtain ⟨tail, hname, harguments⟩ := parts_of_call ht h
      obtain ⟨tail', hname', harguments'⟩ := parts_of_call ht hother
      obtain ⟨rfl, rfl⟩ := Prod.mk.inj (Option.some.inj (hname.symm.trans hname'))
      obtain rfl : arguments = arguments' := Option.some.inj (harguments.symm.trans harguments')
      rfl
    | header | assignment | print | method | unrecognized => cases hkind
  | unrecognized => cases h

/-- What a reader has found is a shape of its kind into which the text decomposes, and it finds
such a shape where there is one. -/
def Finds (reader : Text → Option Shape) (kind : StatementKind) (t : Text) : Prop :=
  ∀ shape, reader t = some shape ↔ ∃ raw, Decomposes t raw ∧ raw.kind = kind ∧ shape = raw.trimmed

theorem finds_header (ht : '\n' ∉ t) : Finds header? .functionHeader t := by
  intro shape
  constructor
  · intro h
    obtain ⟨rest, hfront, hafter⟩ := Option.bind_eq_some_iff.mp h
    obtain rfl := List.isPrefixOf?_eq_some_iff_append_eq.mp hfront
    split at hafter
    · next hblank =>
      obtain ⟨⟨name, tail⟩, hname, htail⟩ := Option.bind_eq_some_iff.mp hafter
      dsimp only at htail
      split at htail
      · next hlast =>
        obtain ⟨params, hparams, rfl⟩ := Option.map_eq_some_iff.mp htail
        obtain ⟨hfound, gap, hne, hgap, rfl⟩ := named_iff.mp ⟨hblank, hname⟩
        simp only [List.mem_append, not_or] at ht
        obtain ⟨call, last, hcall, hblanks, rfl⟩ := (opened_iff ht.2.2.2).mp ⟨hlast, hparams⟩
        obtain ⟨hn, -, -⟩ := nameAt?_eq_some_iff.mp hfound
        exact ⟨_, .header hne hgap hn hcall hblanks rfl, rfl, rfl⟩
      · cases htail
    · cases hafter
  · rintro ⟨raw, h, hkind, rfl⟩
    cases raw with
    | header name params =>
      obtain ⟨rest, tail, hfront, hblank, hname, hcolon, hparams⟩ := parts_of_header ht h
      rw [header?, hfront, Option.bind_eq_bind, Option.bind_some, if_pos hblank, hname]
      simp [hcolon, hparams, trimmed]
    | assignment | print | method | call | unrecognized => cases hkind

theorem finds_assignment (ht : '\n' ∉ t) : Finds assignment? .assignment t := by
  intro shape
  constructor
  · intro h
    obtain ⟨⟨name, tail⟩, hfront, hsigned⟩ := Option.bind_eq_some_iff.mp h
    obtain ⟨hname, rfl, -⟩ := nameAt?_eq_some_iff.mp hfront
    dsimp only at hsigned
    split at hsigned
    · next expr htail =>
      obtain ⟨gap, hgap, rfl⟩ := (trimLeft_eq_cons_iff (by decide)).mp htail
      obtain ⟨found, hfound, rfl⟩ := Option.map_eq_some_iff.mp hsigned
      simp only [List.mem_append, List.mem_cons, not_or] at ht
      obtain ⟨hne, hsign, rfl⟩ := (expression?_eq_some_iff ht.2.2.2).mp hfound
      exact ⟨_, .assignment hname hgap hne hsign rfl, rfl, rfl⟩
    · cases hsigned
  · rintro ⟨raw, h, hkind, rfl⟩
    cases raw with
    | assignment name expr =>
      obtain ⟨tail, hname, hexpr, hne, hsign⟩ := parts_of_assignment h
      obtain ⟨-, rfl, -⟩ := nameAt?_eq_some_iff.mp hname
      obtain ⟨gap, -, rfl⟩ := (trimLeft_eq_cons_iff (by decide)).mp hexpr
      simp only [List.mem_append, List.mem_cons, not_or] at ht
      have hfound := (expression?_eq_some_iff ht.2.2.2).mpr ⟨hne, hsign, rfl⟩
      simp [assignment?, hname, hexpr, hfound, trimmed]
    | header | print | method | call | unrecognized => cases hkind

theorem finds_print (ht : '\n' ∉ t) : Finds print? .printCall t := by
  intro shape
  constructor
  · intro h
    obtain ⟨rest, hfront, hcall⟩ := Option.bind_eq_some_iff.mp h
    obtain ⟨argument, hargument, rfl⟩ := Option.map_eq_some_iff.mp hcall
    obtain rfl := List.isPrefixOf?_eq_some_iff_append_eq.mp hfront
    rw [List.mem_append, not_or] at ht
    exact ⟨_, .print ((arguments?_eq_some_iff ht.2).mp hargument) rfl, rfl, rfl⟩
  · rintro ⟨raw, h, hkind, rfl⟩
    cases raw with
    | print argument =>
      obtain ⟨rest, hfront, hargument⟩ := parts_of_print ht h
      rw [print?, hfront, Option.bind_eq_bind, Option.bind_some, hargument]
      rfl
    | header | assignment | method | call | unrecognized => cases hkind

theorem finds_method (ht : '\n' ∉ t) : Finds method? .methodCall t := by
  intro shape
  constructor
  · intro h
    obtain ⟨⟨object, action, arguments⟩, hparts, rfl⟩ := Option.map_eq_some_iff.mp h
    obtain ⟨⟨first, tail⟩, hfirst, hdot⟩ := Option.bind_eq_some_iff.mp hparts
    obtain ⟨hobject, rfl, -⟩ := nameAt?_eq_some_iff.mp hfirst
    dsimp only at hdot
    split at hdot
    · obtain ⟨⟨second, call⟩, hsecond, hcall⟩ := Option.bind_eq_some_iff.mp hdot
      obtain ⟨enclosed, henclosed, hsame⟩ := Option.map_eq_some_iff.mp hcall
      obtain ⟨haction, rfl, -⟩ := nameAt?_eq_some_iff.mp hsecond
      cases hsame
      simp only [List.mem_append, List.mem_cons, not_or] at ht
      exact ⟨_, .method hobject haction ((arguments?_eq_some_iff ht.2.2.2).mp henclosed) rfl, rfl, rfl⟩
    · cases hdot
  · rintro ⟨raw, h, hkind, rfl⟩
    cases raw with
    | method object action arguments =>
      rw [method?, parts_of_method ht h]
      rfl
    | header | assignment | print | call | unrecognized => cases hkind

theorem finds_call (ht : '\n' ∉ t) : Finds call? .plainCall t := by
  intro shape
  constructor
  · intro h
    obtain ⟨⟨name, tail⟩, hname, hcall⟩ := Option.bind_eq_some_iff.mp h
    obtain ⟨arguments, harguments, rfl⟩ := Option.map_eq_some_iff.mp hcall
    obtain ⟨hn, rfl, -⟩ := nameAt?_eq_some_iff.mp hname
    rw [List.mem_append, not_or] at ht
    exact ⟨_, .call hn ((arguments?_eq_some_iff ht.2).mp harguments) rfl, rfl, rfl⟩
  · rintro ⟨raw, h, hkind, rfl⟩
    cases raw with
    | call name arguments =>
      obtain ⟨tail, hname, harguments⟩ := parts_of_call ht h
      simp [call?, hname, harguments, trimmed]
    | header | assignment | print | method | unrecognized => cases hkind

end Readers

section Order
variable {raw : Shape}

theorem Finds.eq_none {reader : Text → Option Shape} {kind : StatementKind} (h : Finds reader kind t)
    (hkind : ∀ other, Decomposes t other → other.kind ≠ kind) : reader t = none := by
  cases hfound : reader t with
  | none => rfl
  | some shape =>
    obtain ⟨other, hother, hsame, -⟩ := (h shape).mp hfound
    exact absurd hsame (hkind other hother)

theorem Finds.eq_none_of_lt {reader : Text → Option Shape} {kind : StatementKind} {place : Nat}
    (h : Finds reader kind t) (hfirst : ∀ other, Decomposes t other → place ≤ other.kind.place)
    (hlt : kind.place < place) : reader t = none := by
  refine h.eq_none fun other hother hkind => ?_
  have hle := hfirst other hother
  rw [hkind] at hle
  omega

/-- The first reader that finds a shape is that of the first kind into which the text decomposes. -/
theorem ofText_of_first (ht : '\n' ∉ t) (h : Decomposes t raw)
    (hfirst : ∀ other, Decomposes t other → raw.kind.place ≤ other.kind.place) : ofText t = raw.trimmed := by
  unfold ofText
  cases raw with
  | header name params =>
    rw [(finds_header ht _).mpr ⟨_, h, rfl, rfl⟩]
    rfl
  | assignment name expr =>
    have hfirst : ∀ other, Decomposes t other → 1 ≤ other.kind.place := hfirst
    rw [(finds_header ht).eq_none_of_lt hfirst (by decide), (finds_assignment ht _).mpr ⟨_, h, rfl, rfl⟩]
    rfl
  | print argument =>
    have hfirst : ∀ other, Decomposes t other → 2 ≤ other.kind.place := hfirst
    rw [(finds_header ht).eq_none_of_lt hfirst (by decide),
      (finds_assignment ht).eq_none_of_lt hfirst (by decide), (finds_print ht _).mpr ⟨_, h, rfl, rfl⟩]
    rfl
  | method object action arguments =>
    have hfirst : ∀ other, Decomposes t other → 3 ≤ other.kind.place := hfirst
    rw [(finds_header ht).eq_none_of_lt hfirst (by decide),
      (finds_assignment ht).eq_none_of_lt hfirst (by decide),
      (finds_print ht).eq_none_of_lt hfirst (by decide), (finds_method ht _).mpr ⟨_, h, rfl, rfl⟩]
    rfl
  | call name arguments =>
    have hfirst : ∀ other, Decomposes t other → 4 ≤ other.kind.place := hfirst
    rw [(finds_header ht).eq_none_of_lt hfirst (by decide),
      (finds_assignment ht).eq_none_of_lt hfirst (by decide),
      (finds_print ht).eq_none_of_lt hfirst (by decide),
      (finds_method ht).eq_none_of_lt hfirst (by decide), (finds_call ht _).mpr ⟨_, h, rfl, rfl⟩]
    rfl
  | unrecognized => cases h

theorem ofText_of_no_decomposition (ht : '\n' ∉ t) (h : ∀ raw, ¬ Decomposes t raw) :
    ofText t = .unrecognized := by
  have hnone : ∀ {reader kind}, Finds reader kind t → reader t = none := fun hfinds =>
    hfinds.eq_none fun other hother => absurd hother (h other)
  rw [ofText, hnone (finds_header ht), hnone (finds_assignment ht), hnone (finds_print ht),
    hnone (finds_method ht), hnone (finds_call ht)]
  rfl

theorem exists_first (h : ∃ raw, Decomposes t raw) :
    ∃ raw, Decomposes t raw ∧ ∀ other, Decomposes t other → raw.kind.place ≤ other.kind.place := by
  obtain ⟨raw, hraw, hleast⟩ := WellFounded.has_min (measure fun raw : Shape => raw.kind.place).wf
    {raw | Decomposes t raw} h
  exact ⟨raw, hraw, fun other hother => Nat.le_of_not_lt (hleast other hother)⟩

theorem trimmed_ne_unrecognized (h : Decomposes t raw) : raw.trimmed ≠ .unrecognized := by
  cases h <;> exact nofun

theorem nameAt?_def {rest : Text} (h : startsBlank rest = true) :
    nameAt? ("def".toList ++ rest) = some ("def".toList, rest) := by
  refine nameAt?_eq_some_iff.mpr ⟨⟨'d', ['e', 'f'], rfl, by decide, by decide +kernel⟩, rfl, ?_⟩
  intro c hc
  rw [startsBlank, Option.mem_def.mp hc] at h
  exact not_isWordChar_of_isBlank h

theorem isName_print : IsName "print".toList := ⟨'p', ['r', 'i', 'n', 't'], rfl, by decide, by decide +kernel⟩

theorem nameAt?_print {rest : Text} (h : Encloses argument rest) :
    nameAt? ("print".toList ++ rest) = some ("print".toList, rest) := nameAt?_of_encloses isName_print h

theorem arguments?_of_dot (rest : Text) : arguments? ('.' :: rest) = none := rfl

/-- Behind the object of a method call stands a dot, and no other shape has a dot behind its first word. -/
theorem kind_of_decomposes_method {other : Shape} (ht : '\n' ∉ t)
    (h : Decomposes t (.method object action arguments)) (hother : Decomposes t other) :
    other.kind = .methodCall := by
  obtain ⟨rest, hdot⟩ : ∃ rest, nameAt? t = some (object, '.' :: rest) := by
    cases h with
    | method hobject _ _ h =>
      subst h
      exact ⟨_, nameAt?_of_dot hobject _⟩
  cases other with
  | header name params =>
    obtain ⟨tail, -, hfront, hblank, -⟩ := parts_of_header ht hother
    obtain rfl := List.isPrefixOf?_eq_some_iff_append_eq.mp hfront
    obtain ⟨-, rfl⟩ := Prod.mk.inj (Option.some.inj (hdot.symm.trans (nameAt?_def hblank)))
    cases hblank
  | assignment name expr =>
    obtain ⟨tail, hname, hexpr, -⟩ := parts_of_assignment hother
    obtain ⟨-, rfl⟩ := Prod.mk.inj (Option.some.inj (hdot.symm.trans hname))
    cases (List.cons.inj hexpr).1
  | print argument =>
    obtain ⟨tail, hfront, hargument⟩ := parts_of_print ht hother
    obtain rfl := List.isPrefixOf?_eq_some_iff_append_eq.mp hfront
    rw [List.mem_append, not_or] at ht
    have hword := nameAt?_print ((arguments?_eq_some_iff ht.2).mp hargument)
    obtain ⟨-, rfl⟩ := Prod.mk.inj (Option.some.inj (hdot.symm.trans hword))
    rw [arguments?_of_dot] at hargument
    cases hargument
  | method => rfl
  | call name arguments =>
    obtain ⟨tail, hname, harguments⟩ := parts_of_call ht hother
    obtain ⟨-, rfl⟩ := Prod.mk.inj (Option.some.inj (hdot.symm.trans hname))
    rw [arguments?_of_dot] at harguments
    cases harguments
  | unrecognized => cases hother

/-- Behind the name that an assignment sets stands its sign, and behind the first word of a header another name. -/
theorem kind_of_decomposes_assignment {other : Shape} (ht : '\n' ∉ t)
    (h : Decomposes t (.assignment name expr)) (hother : Decomposes t other) : other.kind ≠ .functionHeader := by
  obtain ⟨tail, hname, hexpr, -⟩ := parts_of_assignment h
  intro hkind
  cases other with
  | header name' params =>
    obtain ⟨rest, behind, hfront, hblank, hsecond, -⟩ := parts_of_header ht hother
    obtain rfl := List.isPrefixOf?_eq_some_iff_append_eq.mp hfront
    obtain ⟨-, rfl⟩ := Prod.mk.inj (Option.some.inj (hname.symm.trans (nameAt?_def hblank)))
    rw [hexpr] at hsecond
    cases hsecond
  | assignment | print | method | call | unrecognized => cases hkind

theorem ofText_of_method (ht : '\n' ∉ t) (h : Decomposes t (.method object action arguments)) :
    ofText t = .method object action (trim arguments) := by
  refine ofText_of_first ht h fun other hother => ?_
  rw [kind_of_decomposes_method ht h hother]
  rfl

theorem ofText_of_assignment (ht : '\n' ∉ t) (h : Decomposes t (.assignment name expr)) :
    ofText t = .assignment name (trim expr) := by
  refine ofText_of_first ht h fun other hother => ?_
  have hkind := kind_of_decomposes_assignment ht h hother
  cases hother with
  | header => exact absurd rfl hkind
  | assignment | print | method | call => simp [kind, StatementKind.place]

theorem trimLeft_of_encloses (h : Encloses argument tail) : ∃ rest, trimLeft tail = '(' :: rest := by
  obtain ⟨before, after, hbefore, -, rfl⟩ := h
  exact ⟨_, (trimLeft_eq_cons_iff (by decide)).mpr ⟨before, hbefore, rfl⟩⟩

/-- Behind the first word of a call stands a parenthesis, which tells it from all shapes but a print call. -/
theorem kind_of_decomposes_call {other : Shape} (ht : '\n' ∉ t) (h : Decomposes t (.call name arguments))
    (hother : Decomposes t other) :
    other.kind = .plainCall ∨ other.kind = .printCall ∧ name = "print".toList := by
  obtain ⟨tail, hname, more, hopen⟩ : ∃ tail, nameAt? t = some (name, tail) ∧ ∃ more, trimLeft tail = '(' :: more := by
    cases h with
    | call hname hcall h =>
      subst h
      exact ⟨_, nameAt?_of_encloses hname hcall, trimLeft_of_encloses hcall⟩
  cases other with
  | header other params =>
    obtain ⟨rest, behind, hfront, hblank, hsecond, -⟩ := parts_of_header ht hother
    obtain rfl := List.isPrefixOf?_eq_some_iff_append_eq.mp hfront
    obtain ⟨-, rfl⟩ := Prod.mk.inj (Option.some.inj (hname.symm.trans (nameAt?_def hblank)))
    rw [hopen] at hsecond
    cases hsecond
  | assignment other expr =>
    obtain ⟨behind, hfirst, hsign, -⟩ := parts_of_assignment hother
    obtain ⟨-, rfl⟩ := Prod.mk.inj (Option.some.inj (hname.symm.trans hfirst))
    cases (List.cons.inj (hopen.symm.trans hsign)).1
  | print argument =>
    cases hother with
    | print hcall h =>
      subst h
      exact Or.inr ⟨rfl, (Prod.mk.inj (Option.some.inj (hname.symm.trans (nameAt?_print hcall)))).1⟩
  | method object action arguments =>
    cases hother with
    | method hobject _ _ h =>
      subst h
      obtain ⟨-, rfl⟩ := Prod.mk.inj (Option.some.inj (hname.symm.trans (nameAt?_of_dot hobject _)))
      cases (List.cons.inj hopen).1
  | call => exact Or.inl rfl
  | unrecognized => cases hother

theorem ofText_of_print (ht : '\n' ∉ t) (h : Decomposes t (.print argument)) :
    ofText t = .print (trim argument) := by
  have hcall : Decomposes t (.call "print".toList argument) := by
    cases h with
    | print hcall h => exact .call isName_print hcall h
  refine ofText_of_first ht h fun other hother => ?_
  rcases kind_of_decomposes_call ht hcall hother with hkind | ⟨hkind, -⟩
  · rw [hkind]
    exact (by decide : 2 ≤ 4)
  · rw [hkind]
    exact Nat.le_refl 2

/-- Only a print call is taken for something else than a call. -/
theorem ofText_of_call (ht : '\n' ∉ t) (h : Decomposes t (.call name arguments)) (hname : name ≠ "print".toList) :
    ofText t = .call name (trim arguments) := by
  refine ofText_of_first ht h fun other hother => ?_
  rcases kind_of_decomposes_call ht h hother with hkind | ⟨-, hprint⟩
  · rw [hkind]
    exact Nat.le_refl 4
  · exact absurd hprint hname

/-- The shape of a line is that of the first kind, in the fixed order, into which the line decomposes,
with its parts trimmed, and a line that decomposes into no shape is not recognized. There is one
decomposition at most for each kind. A line that decomposes into a method call is one, whatever its
arguments are. -/
theorem shape_is_first_decomposition {t : Text} (ht : '\n' ∉ t) :
    (∀ shape, shape ≠ .unrecognized → (ofText t = shape ↔ ∃ raw, Decomposes t raw ∧ shape = raw.trimmed ∧
      ∀ other, Decomposes t other → raw.kind.place ≤ other.kind.place)) ∧
    (ofText t = .unrecognized ↔ ∀ raw, ¬ Decomposes t raw) ∧
    (∀ raw other, Decomposes t raw → Decomposes t other → raw.kind = other.kind → raw = other) ∧
    (∀ object action arguments, Decomposes t (.method object action arguments) →
      ofText t = .method object action (trim arguments)) := by
  refine ⟨?_, ⟨?_, ofText_of_no_decomposition ht⟩, fun raw other => decomposes_unique ht, ?_⟩
  · intro shape hshape
    constructor
    · rintro rfl
      have hsome : ∃ raw, Decomposes t raw := by
        by_contra hnone
        exact hshape (ofText_of_no_decomposition ht (not_exists.mp hnone))
      obtain ⟨raw, hraw, hfirst⟩ := exists_first hsome
      exact ⟨raw, hraw, ofText_of_first ht hraw hfirst, hfirst⟩
    · rintro ⟨raw, hraw, rfl, hfirst⟩
      exact ofText_of_first ht hraw hfirst
  · intro hunrecognized raw hraw
    obtain ⟨first, hfirst, hleast⟩ := exists_first ⟨raw, hraw⟩
    rw [ofText_of_first ht hfirst hleast] at hunrecognized
    exact trimmed_ne_unrecognized hfirst hunrecognized
  · intro object action arguments hmethod
    exact ofText_of_method ht hmethod

/-- A method call with a sign and parentheses among its arguments. -/
theorem shape_is_first_decomposition_nested :
    '\n' ∉ "obj.m ( a = (1) ) ".toList ∧
      ofText "obj.m ( a = (1) ) ".toList = .method "obj".toList "m".toList "a = (1)".toList ∧
      ¬ ∃ name expr, Decomposes "obj.m ( a = (1) ) ".toList (.assignment name expr) := by
  have ht : '\n' ∉ "obj.m ( a = (1) ) ".toList := by decide
  have hmethod : Decomposes "obj.m ( a = (1) ) ".toList (.method "obj".toList "m".toList " a = (1) ".toList) :=
    .method ⟨'o', ['b', 'j'], rfl, by decide, by decide +kernel⟩ ⟨'m', [], rfl, by decide, by decide⟩
      ⟨[' '], [' '], by decide, by decide, rfl⟩ rfl
  obtain ⟨hfirst, -, -, hcall⟩ := shape_is_first_decomposition ht
  refine ⟨ht, hcall _ _ _ hmethod, ?_⟩
  rintro ⟨name, expr, h⟩
  obtain ⟨raw, hraw, hshape, hleast⟩ := (hfirst _ (by exact nofun)).mp (hcall _ _ _ hmethod)
  have hle := hleast _ h
  cases raw with
  | method => exact absurd hle (by simp [kind, StatementKind.place])
  | header | assignment | print | call | unrecognized => cases hshape

end Order

end Shape

end SnippetTutor
