import SnippetTutor.Json.Reader
import SnippetTutor.Proofs.Json.Grammar

/-! # The reader reads every document

A reader that bears all numbers and is deep enough reads each document of the grammar as what it
stands for, and refuses it if it stands for nothing. So a document stands for one thing at most.
-/
namespace SnippetTutor.Json
variable {limits : Limits} {names : Bool} {t more word : Text}

/-- Nothing follows that would go on with a word. -/
def EndsWord (rest : Text) : Prop := ∀ c ∈ rest.head?, isWordPart c = false

theorem endsWord_cons {c : Char} (h : isWordPart c = false) (rest : Text) : EndsWord (c :: rest) :=
  fun _ hd => Option.some.inj hd ▸ h

theorem not_isWordPart_of_isSpace {c : Char} (h : isSpace c = true) : isWordPart c = false := by
  simp only [isSpace, Bool.or_eq_true, decide_eq_true_eq] at h
  rcases h with ((rfl | rfl) | rfl) | rfl <;> decide

theorem endsWord_spaces {spaces : Text} (h : Spaces spaces) {rest : Text} (hrest : EndsWord rest) :
    EndsWord (spaces ++ rest) := by
  cases spaces with
  | nil => exact hrest
  | cons c more => exact endsWord_cons (not_isWordPart_of_isSpace (h c List.mem_cons_self)) _

/-- Whatever follows, the scanner turns the text into these tokens, if there are any. -/
def Scans (limits : Limits) (t : Text) (tokens : Option (List Token)) : Prop :=
  ∀ rest, EndsWord rest → scan limits (.plain []) (t ++ rest) =
    tokens.bind fun ts => (scan limits (.plain []) rest).map (ts ++ ·)

/-! ## Words, marks and strings -/

theorem scan_word (hword : ∀ c ∈ word, isWordPart c = true) (gathered rest : Text) :
    scan limits (.plain gathered) (word ++ rest) = scan limits (.plain (word.reverse ++ gathered)) rest := by
  induction word generalizing gathered with
  | nil => rfl
  | cons c cs ih =>
    obtain ⟨hc, hcs⟩ := List.forall_mem_cons.mp hword
    simp only [List.cons_append, scan, hc, if_true, ih hcs, List.reverse_cons, List.append_assoc,
      List.nil_append]

theorem scan_endsWord {gathered rest : Text} (hgathered : gathered ≠ []) (hrest : EndsWord rest) :
    scan limits (.plain gathered) rest = (wordValue? limits gathered.reverse).bind fun value =>
      (scan limits (.plain []) rest).map (.scalar value :: ·) := by
  cases rest with
  | nil => simp [scan, endWord, hgathered]
  | cons c more => simp [scan, endWord, hgathered, hrest c rfl]

theorem scans_word {value : Json} (hne : word ≠ []) (hword : ∀ c ∈ word, isWordPart c = true)
    (hvalue : wordValue? limits word = some value) : Scans limits word (some [.scalar value]) := by
  intro rest hrest
  rw [scan_word hword, List.append_nil, scan_endsWord (by simpa using hne) hrest, List.reverse_reverse, hvalue]
  rfl

theorem scan_mark {c : Char} (hword : isWordPart c = false) (hspace : isSpace c = false) (hquote : c ≠ '"')
    (hmark : isMark c = true) (rest : Text) :
    scan limits (.plain []) (c :: rest) = (scan limits (.plain []) rest).map (.mark c :: ·) := by
  simp [scan, endWord, hword, hspace, hquote, hmark]

theorem scan_spaces {spaces : Text} (h : Spaces spaces) (rest : Text) :
    scan limits (.plain []) (spaces ++ rest) = scan limits (.plain []) rest := by
  induction spaces with
  | nil => rfl
  | cons c cs ih =>
    obtain ⟨hc, hcs⟩ := List.forall_mem_cons.mp h
    simp only [List.cons_append, scan, not_isWordPart_of_isSpace hc, endWord, hc, if_true, Bool.false_eq_true,
      if_false, ih hcs]

theorem exists_four {α : Type} {xs : List α} (h : xs.length = 4) : ∃ a b c d, xs = [a, b, c, d] := by
  match xs, h with
  | [a, b, c, d], _ => exact ⟨a, b, c, d, rfl⟩

theorem scan_digits {digits : Text} {values : List Nat} (h : digits.map Text.hexDigit? = values.map some)
    (hlength : values.length = 4) (points : List Nat) (rest : Text) :
    scan limits (.coded points []) (digits ++ rest) =
      scan limits (.quoted (Text.numberOf 16 values :: points)) rest := by
  have hdigits : digits.length = 4 := by simpa [hlength] using congrArg List.length h
  obtain ⟨v₁, v₂, v₃, v₄, rfl⟩ := exists_four hlength
  obtain ⟨d₁, d₂, d₃, d₄, rfl⟩ := exists_four hdigits
  simp only [List.map_cons, List.map_nil, List.cons.injEq, and_true] at h
  obtain ⟨h₁, h₂, h₃, h₄⟩ := h
  simp [scan, h₁, h₂, h₃, h₄]

theorem scan_body {points : List Nat} (h : Body t points) (gathered : List Nat) (rest : Text) :
    scan limits (.quoted gathered) (t ++ '"' :: rest) =
      (charsOf (gathered.reverse ++ points)).bind fun text =>
        (scan limits (.plain []) rest).map (.text text :: ·) := by
  induction h generalizing gathered with
  | nil => simp [scan]
  | plain hquote hslash hlow _ ih =>
    simp only [List.cons_append, scan, if_neg hquote, if_neg hslash, if_neg (Nat.not_lt.mpr hlow), ih,
      List.reverse_cons, List.append_assoc, List.nil_append]
  | @escape c e _ _ hescape _ ih =>
    have hu : c ≠ 'u' := by
      rintro rfl
      cases hescape
    simp only [List.cons_append, scan, if_neg hu, hescape, Option.bind_some, ih, List.reverse_cons,
      List.append_assoc, List.nil_append]
    simp
  | unit hdigits hlength _ ih =>
    simp only [List.cons_append, List.append_assoc, scan, scan_digits hdigits hlength, ih, List.reverse_cons,
      List.nil_append]
    simp

theorem scans_quotedBody {points : List Nat} (h : Body t points) :
    Scans limits (quotedBody t) ((charsOf points).map fun text => [.text text]) := by
  intro rest _
  have hstart : scan limits (.plain []) (quotedBody t ++ rest) = scan limits (.quoted []) (t ++ '"' :: rest) := by
    have hword : isWordPart '"' = false := by decide
    have hspace : isSpace '"' = false := by decide
    simp [quotedBody, scan, endWord, hword, hspace]
  rw [hstart, scan_body h, Option.bind_map]
  rfl

theorem mark_cases {c : Char} (h : isMark c = true) : isWordPart c = false ∧ isSpace c = false ∧ c ≠ '"' := by
  have hall : ∀ d ∈ "[]\x7b\x7d,:".toList, isWordPart d = false ∧ isSpace d = false ∧ d ≠ '"' := by decide +kernel
  exact hall c (by simpa [isMark] using h)

theorem scans_spaces {spaces : Text} (h : Spaces spaces) : Scans limits spaces (some []) := by
  intro rest _
  rw [scan_spaces h]
  simp

/-- Tokens one after the other. -/
def joined (first second : Option (List Token)) : Option (List Token) :=
  first.bind fun ts => second.map (ts ++ ·)

theorem Scans.append {first second : Text} {ts us : Option (List Token)} (hfirst : Scans limits first ts)
    (hsecond : Scans limits second us) (hends : ∀ rest, EndsWord rest → EndsWord (second ++ rest)) :
    Scans limits (first ++ second) (joined ts us) := by
  intro rest hrest
  rw [List.append_assoc, hfirst _ (hends rest hrest), hsecond rest hrest]
  cases ts with
  | none => rfl
  | some ts =>
    cases us with
    | none => rfl
    | some us => simp [joined, Function.comp_def]

/-- A mark ends every word before it. -/
theorem Scans.mark {c : Char} {before : Text} {ts us : Option (List Token)} (hbefore : Scans limits before ts)
    (h : isMark c = true) (ht : Scans limits t us) :
    Scans limits (before ++ c :: t) (joined ts (us.map (.mark c :: ·))) := by
  have hword := (mark_cases h).1
  refine hbefore.append ?_ fun rest _ => endsWord_cons hword _
  intro rest hrest
  rw [List.cons_append, scan_mark hword (mark_cases h).2.1 (mark_cases h).2.2 h, ht rest hrest]
  cases us <;> simp [Function.comp_def]

theorem Scans.spaces {before after : Text} {ts : Option (List Token)} (hbefore : Spaces before)
    (ht : Scans limits t ts) (hafter : Spaces after) : Scans limits (before ++ (t ++ after)) ts := by
  intro rest hrest
  rw [List.append_assoc, scan_spaces hbefore, List.append_assoc, ht _ (endsWord_spaces hafter hrest),
    scan_spaces hafter]

/-- Something with white space around it, before a mark. -/
theorem Scans.separated {c : Char} {before after : Text} {ts us : Option (List Token)} (hbefore : Spaces before)
    (ht : Scans limits t ts) (hafter : Spaces after) (h : isMark c = true) (hmore : Scans limits more us) :
    Scans limits (before ++ (t ++ (after ++ c :: more))) (joined ts (us.map (.mark c :: ·))) := by
  have hjoined := (ht.spaces hbefore hafter).mark h hmore
  rwa [List.append_assoc, List.append_assoc] at hjoined

/-- Something between brackets. -/
theorem Scans.enclosed {opening closing : Char} {ts : Option (List Token)} (ht : Scans limits t ts)
    (hopening : isMark opening = true) (hclosing : isMark closing = true) :
    Scans limits (opening :: (t ++ [closing])) (ts.map fun l => .mark opening :: (l ++ [.mark closing])) := by
  have hnone : Scans limits [] (some []) := scans_spaces spaces_nil
  have h := hnone.mark hopening (ht.mark hclosing hnone)
  cases ts with
  | none => exact h
  | some l => exact h

/-! ## Values out of tokens -/

/-- The tokens build what the part stands for, in a reader that is deep enough for the text, and there
are none if it stands for nothing. -/
def Builds (limits : Limits) (size : Nat) : Part → Option (List Token) → Prop
  | .value none, ts | .items none, ts | .field none, ts | .fields none, ts => ts = none
  | .value (some value), ts => ∃ l, ts = some l ∧ ∀ stack, stack.length + size ≤ limits.nesting →
      l.foldlM (Reading.step limits) ⟨.value, stack⟩ = some ⟨.separator value, stack⟩
  | .items (some items), ts => ∃ l, ts = some l ∧
      ∀ (stack : List Open) (done : List Json), stack.length + 1 + size ≤ limits.nesting →
      (l ++ [Token.mark ']']).foldlM (Reading.step limits) ⟨.value, .array done :: stack⟩ =
        some ⟨.separator (.array (done.reverse ++ items)), stack⟩
  | .field (some (key, value)), ts => ∃ l, ts = some (.text key :: .mark ':' :: l) ∧
      ∀ stack, stack.length + size ≤ limits.nesting →
        l.foldlM (Reading.step limits) ⟨.value, stack⟩ = some ⟨.separator value, stack⟩
  | .fields (some fields), ts => ∃ l, ts = some l ∧
      ∀ (stack : List Open) (done : List (Text × Json)), stack.length + 1 + size ≤ limits.nesting →
      (l ++ [Token.mark '\x7d']).foldlM (Reading.step limits) ⟨.key done, stack⟩ =
        some ⟨.separator (.object (Fields.ofList (done.reverse ++ fields))), stack⟩

theorem foldlM_firstItem {l : List Token} {stack : List Open} {r : Reading} (hdeep : stack.length < limits.nesting)
    (hne : l ≠ []) (h : l.foldlM (Reading.step limits) ⟨.value, .array [] :: stack⟩ = some r) :
    l.foldlM (Reading.step limits) ⟨.firstItem, stack⟩ = some r := by
  obtain ⟨first, rest, rfl⟩ := List.exists_cons_of_ne_nil hne
  have hopen : Reading.isClosing ']' first = false := by
    cases first with
    | mark c =>
      by_cases hc : c = ']'
      · subst hc
        simp [Reading.step, Reading.value] at h
      · simpa [Reading.isClosing] using hc
    | text | scalar => rfl
  rw [← h, List.foldlM_cons, List.foldlM_cons]
  simp [Reading.step, hopen, Nat.not_le.mpr hdeep]

theorem foldlM_firstKey {l : List Token} {stack : List Open} {r : Reading} (hdeep : stack.length < limits.nesting)
    (hne : l ≠ []) (h : l.foldlM (Reading.step limits) ⟨.key [], stack⟩ = some r) :
    l.foldlM (Reading.step limits) ⟨.firstKey, stack⟩ = some r := by
  obtain ⟨first, rest, rfl⟩ := List.exists_cons_of_ne_nil hne
  rw [← h, List.foldlM_cons, List.foldlM_cons]
  cases first with
  | mark c => simp [Reading.step] at h
  | scalar => simp [Reading.step] at h
  | text key => simp [Reading.step, Reading.isClosing, Nat.not_le.mpr hdeep]

theorem Builds.mono {size size' : Nat} {p : Part} {ts : Option (List Token)} (h : Builds limits size p ts)
    (hsize : size ≤ size') : Builds limits size' p ts := by
  rcases p with ⟨_ | value⟩ | ⟨_ | items⟩ | ⟨_ | ⟨key, value⟩⟩ | ⟨_ | fields⟩
  case value.some | field.some =>
    obtain ⟨l, hl, hfold⟩ := h
    exact ⟨l, hl, fun stack hdeep => hfold stack (by omega)⟩
  case items.some | fields.some =>
    obtain ⟨l, hl, hfold⟩ := h
    exact ⟨l, hl, fun stack done hdeep => hfold stack done (by omega)⟩
  all_goals exact h

/-- The text is scanned into tokens that build what the part stands for, if the reader is so many levels
deeper than where the part stands. -/
def ReadsWithin (limits : Limits) (size : Nat) (p : Part) (t : Text) : Prop :=
  ∃ ts, Scans limits t ts ∧ Builds limits size p ts

/-- A text cannot be nested deeper than it is long. -/
def Reads (limits : Limits) (p : Part) (t : Text) : Prop := ReadsWithin limits t.length p t

theorem ReadsWithin.mono {size size' : Nat} {p : Part} (h : ReadsWithin limits size p t) (hsize : size ≤ size') :
    ReadsWithin limits size' p t := by
  obtain ⟨ts, hscans, hbuilds⟩ := h
  exact ⟨ts, hscans, hbuilds.mono hsize⟩

section Levels
variable {size : Nat}

theorem reads_word {value : Json} (hne : word ≠ []) (hword : ∀ c ∈ word, isWordPart c = true)
    (hvalue : wordValue? limits word = some value) : ReadsWithin limits size (.value (some value)) word :=
  ⟨_, scans_word hne hword hvalue, _, rfl, fun _ _ => rfl⟩

theorem reads_text {points : List Nat} (h : Body t points) :
    ReadsWithin limits size (.value ((charsOf points).map .text)) (quotedBody t) := by
  refine ⟨_, scans_quotedBody h, ?_⟩
  cases charsOf points with
  | none => rfl
  | some text => exact ⟨_, rfl, fun _ _ => rfl⟩

theorem reads_empty {opening closing : Char} {value : Json} (hopening : isMark opening = true)
    (hclosing : isMark closing = true) (h : Spaces t)
    (hbuilds : ∀ stack, [Token.mark opening, Token.mark closing].foldlM (Reading.step limits) ⟨.value, stack⟩ =
      some ⟨.separator value, stack⟩) :
    ReadsWithin limits size (.value (some value)) (opening :: (t ++ [closing])) :=
  ⟨_, (scans_spaces h).enclosed hopening hclosing, _, rfl, fun stack _ => hbuilds stack⟩

theorem reads_array {items : Option (List Json)} (h : ReadsWithin limits size (.items items) t) :
    ReadsWithin limits (size + 1) (.value (items.map .array)) ('[' :: (t ++ [']'])) := by
  obtain ⟨ts, hscans, hbuilds⟩ := h
  refine ⟨_, hscans.enclosed (by decide +kernel) (by decide +kernel), ?_⟩
  cases items with
  | none =>
    obtain rfl := hbuilds
    rfl
  | some items =>
    obtain ⟨l, rfl, hfold⟩ := hbuilds
    refine ⟨_, rfl, fun stack hdeep => ?_⟩
    have hitems := foldlM_firstItem (by omega) (by simp) (hfold stack [] (by omega))
    simpa [Reading.step, Reading.value] using hitems

theorem reads_object {fields : Option (List (Text × Json))} (h : ReadsWithin limits size (.fields fields) t) :
    ReadsWithin limits (size + 1) (.value (fields.map fun fs => .object (Fields.ofList fs))) ('\x7b' :: (t ++ ['\x7d'])) := by
  obtain ⟨ts, hscans, hbuilds⟩ := h
  refine ⟨_, hscans.enclosed (by decide +kernel) (by decide +kernel), ?_⟩
  cases fields with
  | none =>
    obtain rfl := hbuilds
    rfl
  | some fields =>
    obtain ⟨l, rfl, hfold⟩ := hbuilds
    refine ⟨_, rfl, fun stack hdeep => ?_⟩
    have hfields := foldlM_firstKey (by omega) (by simp) (hfold stack [] (by omega))
    simpa [Reading.step, Reading.value] using hfields

theorem reads_lastItem {item : Option Json} {before after : Text} (hbefore : Spaces before)
    (h : ReadsWithin limits size (.value item) t) (hafter : Spaces after) :
    ReadsWithin limits size (.items (consDenoted item (some []))) (before ++ (t ++ after)) := by
  obtain ⟨ts, hscans, hbuilds⟩ := h
  refine ⟨ts, hscans.spaces hbefore hafter, ?_⟩
  cases item with
  | none => exact hbuilds
  | some item =>
    obtain ⟨l, rfl, hfold⟩ := hbuilds
    refine ⟨l, rfl, fun stack done hdeep => ?_⟩
    rw [List.foldlM_append, hfold (.array done :: stack) (by simp only [List.length_cons]; omega)]
    simp [Reading.step, Reading.separator]

theorem reads_item {item : Option Json} {items : Option (List Json)} {before after : Text} (hbefore : Spaces before)
    (h : ReadsWithin limits size (.value item) t) (hafter : Spaces after)
    (hmore : ReadsWithin limits size (.items items) more) :
    ReadsWithin limits size (.items (consDenoted item items)) (before ++ (t ++ (after ++ ',' :: more))) := by
  obtain ⟨ts, hscans, hbuilds⟩ := h
  obtain ⟨us, hscansMore, hbuildsMore⟩ := hmore
  refine ⟨_, hscans.separated hbefore hafter (by decide +kernel) hscansMore, ?_⟩
  cases item with
  | none =>
    obtain rfl := hbuilds
    rfl
  | some item =>
    obtain ⟨l, rfl, hfold⟩ := hbuilds
    cases items with
    | none =>
      obtain rfl := hbuildsMore
      rfl
    | some items =>
      obtain ⟨l', rfl, hfoldMore⟩ := hbuildsMore
      refine ⟨_, rfl, fun stack done hdeep => ?_⟩
      have hitem := hfold (.array done :: stack) (by simp only [List.length_cons]; omega)
      rw [List.append_assoc, List.foldlM_append, hitem]
      have hrest := hfoldMore stack (item :: done) (by omega)
      simpa [Reading.step, Reading.separator] using hrest

theorem reads_field {key : Text} {points : List Nat} {value : Option Json} {before after : Text}
    (hkey : Body key points) (hbefore : Spaces before) (hafter : Spaces after)
    (h : ReadsWithin limits size (.value value) t) :
    ReadsWithin limits size (.field ((charsOf points).bind fun k => value.map fun v => (k, v)))
      (quotedBody key ++ (before ++ ':' :: (after ++ t))) := by
  obtain ⟨ts, hscans, hbuilds⟩ := h
  have hvalue : Scans limits (after ++ t) ts := by
    simpa using hscans.spaces hafter spaces_nil
  have hcolon : isMark ':' = true := by decide +kernel
  have hall := (scans_quotedBody hkey).separated spaces_nil hbefore hcolon hvalue
  refine ⟨_, hall, ?_⟩
  cases charsOf points with
  | none => rfl
  | some text =>
    cases value with
    | none =>
      obtain rfl := hbuilds
      rfl
    | some value =>
      obtain ⟨l, rfl, hfold⟩ := hbuilds
      exact ⟨l, rfl, hfold⟩

theorem reads_lastField {field : Option (Text × Json)} {before after : Text} (hbefore : Spaces before)
    (h : ReadsWithin limits size (.field field) t) (hafter : Spaces after) :
    ReadsWithin limits size (.fields (consDenoted field (some []))) (before ++ (t ++ after)) := by
  obtain ⟨ts, hscans, hbuilds⟩ := h
  refine ⟨ts, hscans.spaces hbefore hafter, ?_⟩
  cases field with
  | none => exact hbuilds
  | some field =>
    obtain ⟨l, rfl, hfold⟩ := hbuilds
    refine ⟨_, rfl, fun stack done hdeep => ?_⟩
    have hvalue := hfold (.object done field.1 :: stack) (by simp only [List.length_cons]; omega)
    simp [Reading.step, Reading.isClosing, hvalue, Reading.separator]

theorem reads_fields {field : Option (Text × Json)} {fields : Option (List (Text × Json))} {before after : Text}
    (hbefore : Spaces before) (h : ReadsWithin limits size (.field field) t) (hafter : Spaces after)
    (hmore : ReadsWithin limits size (.fields fields) more) :
    ReadsWithin limits size (.fields (consDenoted field fields)) (before ++ (t ++ (after ++ ',' :: more))) := by
  obtain ⟨ts, hscans, hbuilds⟩ := h
  obtain ⟨us, hscansMore, hbuildsMore⟩ := hmore
  refine ⟨_, hscans.separated hbefore hafter (by decide +kernel) hscansMore, ?_⟩
  cases field with
  | none =>
    obtain rfl := hbuilds
    rfl
  | some field =>
    obtain ⟨l, rfl, hfold⟩ := hbuilds
    cases fields with
    | none =>
      obtain rfl := hbuildsMore
      rfl
    | some fields =>
      obtain ⟨l', rfl, hfoldMore⟩ := hbuildsMore
      refine ⟨_, rfl, fun stack done hdeep => ?_⟩
      have hvalue := hfold (.object done field.1 :: stack) (by simp only [List.length_cons]; omega)
      have hrest := hfoldMore stack ((field.1, field.2) :: done) (by omega)
      simpa [Reading.step, Reading.isClosing, hvalue, Reading.separator] using hrest

end Levels

theorem Written.reads {p : Part} (hlimits : ∀ d, limits.tooLong d = false) (h : Written names p t) :
    Reads limits p t := by
  induction h with
  | null => exact reads_word (by decide) (by decide) rfl
  | bool b => cases b <;> exact reads_word (by decide) (by decide +kernel) rfl
  | numeral n =>
    exact reads_word n.text_ne_nil (fun _ => Numeral.isWordPart_of_mem_text) (Numeral.wordValue?_text (hlimits _))
  | nan => exact reads_word (by decide) (by decide +kernel) rfl
  | infinite _ negative => cases negative <;> exact reads_word (by decide) (by decide +kernel) rfl
  | text h => exact reads_text h
  | emptyArray h => exact reads_empty (by decide +kernel) (by decide +kernel) h fun _ => rfl
  | array _ ih => exact (reads_array ih).mono (by simp)
  | emptyObject h => exact reads_empty (by decide +kernel) (by decide +kernel) h fun _ => rfl
  | object _ ih => exact (reads_object ih).mono (by simp)
  | lastItem hbefore _ hafter ih => exact reads_lastItem hbefore (ih.mono (by grind)) hafter
  | item hbefore _ hafter _ ih ihmore =>
    exact reads_item hbefore (ih.mono (by grind)) hafter (ihmore.mono (by grind))
  | field hkey hbefore hafter _ ih => exact reads_field hkey hbefore hafter (ih.mono (by grind))
  | lastField hbefore _ hafter ih => exact reads_lastField hbefore (ih.mono (by grind)) hafter
  | fields hbefore _ hafter _ ih ihmore =>
    exact reads_fields hbefore (ih.mono (by grind)) hafter (ihmore.mono (by grind))

/-- What can be read is read, whatever white space is around it. -/
theorem read?_of_readsWithin {size : Nat} {before after : Text} {denoted : Option Json}
    (h : ReadsWithin limits size (.value denoted) t) (hdeep : size ≤ limits.nesting) (hbefore : Spaces before)
    (hafter : Spaces after) : read? limits (before ++ (t ++ after)) = denoted := by
  obtain ⟨ts, hscans, hbuilds⟩ := h
  have htokens := hscans.spaces hbefore hafter [] (by simp [EndsWord])
  rw [List.append_nil] at htokens
  have hnone : scan limits (.plain []) [] = some [] := rfl
  rw [read?, tokens?, htokens, hnone]
  cases denoted with
  | none =>
    obtain rfl := hbuilds
    rfl
  | some value =>
    obtain ⟨l, rfl, hfold⟩ := hbuilds
    have hvalue := hfold [] (by simpa using hdeep)
    simp [Reading.start, hvalue, Reading.result?]

/-- A reader that bears the document reads it as what it stands for. -/
theorem read?_of_document {denoted : Option Json} (hlimits : ∀ d, limits.tooLong d = false)
    (hdeep : t.length ≤ limits.nesting) (h : Document names t denoted) : read? limits t = denoted := by
  obtain ⟨before, body, after, rfl, hbefore, hafter, hbody⟩ := h
  simp only [List.length_append] at hdeep
  exact read?_of_readsWithin (hbody.reads hlimits) (by omega) hbefore hafter

/-- A reader that is deep enough for a text, and bears all numbers. -/
def generous (t : Text) : Limits := ⟨t.length, fun _ => false⟩

/-- A document stands for one thing at most. -/
theorem Document.unique {other : Bool} {first second : Option Json} (hfirst : Document names t first)
    (hsecond : Document other t second) : first = second := by
  have hread : read? (generous t) t = first := read?_of_document (fun _ => rfl) (Nat.le_refl _) hfirst
  rw [← hread]
  exact read?_of_document (fun _ => rfl) (Nat.le_refl _) hsecond

end SnippetTutor.Json
