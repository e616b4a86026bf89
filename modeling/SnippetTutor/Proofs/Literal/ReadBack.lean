import SnippetTutor.Proofs.Literal.Nesting
import SnippetTutor.Proofs.Statement.Grammar

/-! # Displayed lists are read back

A list is displayed in the notation that lists are read in, with other quotes. If its texts are plain
and its numbers whole, then what is displayed is read as the same list, whatever the memory holds.
-/
namespace SnippetTutor

namespace Text

/-- No quote, no backslash and no control character. -/
def Plain (t : Text) : Prop := ∀ c ∈ t, isQuote c = false ∧ c ≠ '\\' ∧ 0x20 ≤ c.toNat

instance (t : Text) : Decidable t.Plain := inferInstanceAs (Decidable (∀ c ∈ t, _))

end Text

namespace Value

/-- The number is whole, has no point when it is displayed, and is not the negative zero. -/
def PlainNumber (x : Number) : Prop :=
  ∃ n : Int, x.whole? = some n ∧ n.natAbs < 10 ^ 16 ∧ (n = 0 → x.isNegative = false)

/-- Lists and records of plain texts and whole numbers. The keys of a record are different. -/
inductive Plain : Value → Prop
  | number {x : Number} (h : PlainNumber x) : Plain (.number x)
  | text {t : Text} (h : t.Plain) : Plain (.text t)
  | list {items : List Value} (h : ∀ item ∈ items, Plain item) : Plain (.list items)
  | record {fields : List (Text × Value)} (hnodup : (Fields.keys fields).Nodup)
      (hkeys : ∀ field ∈ fields, field.1.Plain) (h : ∀ field ∈ fields, Plain field.2) : Plain (.record fields)

/-! ## Items and fields one by one -/

theorem displayItem_text (t : Text) : (text t).displayItem = '\'' :: (t ++ ['\'']) := rfl

theorem displayItem_list (items : List Value) :
    (list items).displayItem = '[' :: (Text.joinWith ", ".toList (displayItems items) ++ [']']) := rfl

theorem displayItem_record (fields : List (Text × Value)) :
    (record fields).displayItem = '\x7b' :: (Text.joinWith ", ".toList (displayFields fields) ++ ['\x7d']) := rfl

theorem displayItems_eq (items : List Value) : displayItems items = items.map displayItem := by
  induction items with
  | nil => rfl
  | cons item rest ih => rw [displayItems, ih, List.map_cons, displayItem]

theorem displayFields_eq (fields : List (Text × Value)) : displayFields fields =
    fields.map fun field => '\'' :: (field.1 ++ ['\'']) ++ (": ".toList ++ field.2.displayItem) := by
  induction fields with
  | nil => rfl
  | cons field rest ih => simp [displayFields, ih, displayItem]

theorem toJsonItems_eq (items : List Value) : toJsonItems items = items.map toJson := by
  induction items with
  | nil => rfl
  | cons item rest ih => rw [toJsonItems, ih, List.map_cons]

theorem toJsonFields_eq (fields : List (Text × Value)) :
    toJsonFields fields = fields.map fun field => (field.1, field.2.toJson) := by
  induction fields with
  | nil => rfl
  | cons field rest ih => rw [toJsonFields, ih, List.map_cons]

/-! ## The value of the document -/

theorem ofJsonItems_map {items : List Value} (h : ∀ item ∈ items, ofJson item.toJson = .ok item) :
    ofJsonItems (items.map toJson) = .ok items := by
  induction items with
  | nil => rfl
  | cons item rest ih =>
    obtain ⟨hitem, hrest⟩ := List.forall_mem_cons.mp h
    rw [List.map_cons, ofJsonItems, hitem, ih hrest]
    rfl

theorem ofJsonFields_map {fields : List (Text × Value)} (h : ∀ field ∈ fields, ofJson field.2.toJson = .ok field.2) :
    ofJsonFields (fields.map fun field => (field.1, field.2.toJson)) = .ok fields := by
  induction fields with
  | nil => rfl
  | cons field rest ih =>
    obtain ⟨hfield, hrest⟩ := List.forall_mem_cons.mp h
    rw [List.map_cons, ofJsonFields, hfield, ih hrest]
    rfl

/-- The document of a plain value is read as the value. -/
theorem Plain.ofJson_toJson {v : Value} (h : v.Plain) : ofJson v.toJson = .ok v := by
  induction h with
  | number h =>
    obtain ⟨n, hwhole, -, hzero⟩ := h
    rw [toJson, hwhole]
    simp [ofJson, ofWhole, Number.ofInt?_of_whole? hwhole hzero]
  | text => rfl
  | list _ ih =>
    rw [toJson, ofJson, toJsonItems_eq, ofJsonItems_map ih]
    rfl
  | record _ _ _ ih =>
    rw [toJson, ofJson, toJsonFields_eq, ofJsonFields_map ih]
    rfl

theorem PlainNumber.display {x : Number} {n : Int} (hwhole : x.whole? = some n) (hsmall : n.natAbs < 10 ^ 16) :
    x.display = Text.ofInt n := by
  cases x with
  | nan | infinite => cases hwhole
  | finite negative rank =>
    have hlimit : n.natAbs < Number.compactLimit := hsmall
    simp [Number.display, Number.compact, hwhole, hlimit]

end Value

namespace Json
variable {t : Text}

/-- A plain text is the inside of a string that stands for it. -/
theorem body_plain (h : t.Plain) : Body t (t.map Char.toNat) ∧ charsOf (t.map Char.toNat) = some t := by
  induction t with
  | nil => exact ⟨.nil, rfl⟩
  | cons c rest ih =>
    obtain ⟨⟨hquote, hslash, hlow⟩, hrest⟩ := List.forall_mem_cons.mp h
    obtain ⟨hbody, hchars⟩ := ih hrest
    refine ⟨.plain (Literal.ne_of_not_isQuote hquote) hslash hlow hbody, ?_⟩
    rw [List.map_cons, charsOf_cons_toNat, hchars, Option.map_some]

end Json

namespace Literal
open Json Value
variable {t : Text} {n : Int}

theorem normalized_append (a b : Text) : normalized (a ++ b) = normalized a ++ normalized b := List.map_append

theorem normalized_of_not_mem (h : '\'' ∉ t) : normalized t = t := by
  have hsame : ∀ c ∈ t, (if c = '\'' then '"' else c) = c := by
    rintro c hc
    refine if_neg ?_
    rintro rfl
    exact h hc
  exact (List.map_congr_left hsame).trans (List.map_id' t)

theorem normalized_of_plain (h : t.Plain) : normalized t = t := by
  refine normalized_of_not_mem fun hmem => ?_
  exact absurd (h '\'' hmem).1 (by decide)

theorem normalized_quoted (h : t.Plain) : normalized ('\'' :: (t ++ ['\''])) = quotedBody t := by
  rw [normalized_cons, normalized_append, normalized_of_plain h]
  rfl

theorem normalized_joinWith (texts : List Text) :
    normalized (Text.joinWith ", ".toList texts) = Text.joinWith ", ".toList (texts.map normalized) := by
  induction texts with
  | nil => rfl
  | cons first rest ih =>
    cases rest with
    | nil => rw [List.map_singleton, Text.joinWith_singleton, Text.joinWith_singleton]
    | cons second more =>
      rw [List.map_cons, List.map_cons, Text.joinWith_cons_cons, Text.joinWith_cons_cons, ← List.map_cons, ← ih,
        normalized_append, normalized_append]
      rfl

/-- A whole number without a point has few digits. -/
theorem length_ofInt_le (h : n.natAbs < 10 ^ 16) : (Text.ofInt n).length ≤ 17 := by
  have hdigits : ∀ k : Nat, k < 10 ^ 16 → (Text.ofNat k).length ≤ 16 := fun k hk =>
    (Nat.length_toDigits_le_iff (by decide) (by decide)).mpr hk
  cases n with
  | ofNat k => exact Nat.le_succ_of_le (hdigits k h)
  | negSucc k => exact Nat.succ_le_succ (hdigits (k + 1) h)

theorem length_whole_le (numeral : Numeral) : numeral.decimal.whole.length ≤ numeral.text.length := by
  simp only [Numeral.decimal, Numeral.text, List.length_map, List.length_append]
  omega

theorem readsWithin_ofInt (h : n.natAbs < 10 ^ 16) :
    ReadsWithin decoderLimits 0 (.value (some (.int n))) (normalized (Text.ofInt n)) := by
  obtain ⟨numeral, htext, hvalue⟩ := exists_numeral_ofInt n
  have hshort : decoderLimits.tooLong numeral.decimal = false := by
    have hlength := length_whole_le numeral
    have hdigits := length_ofInt_le h
    rw [htext] at hlength
    have hlimit : ¬ Text.maxDigits < numeral.decimal.whole.length := by
      rw [Text.maxDigits]
      omega
    simp [decoderLimits, hlimit]
  have hunquoted : '\'' ∉ numeral.text := fun hmem =>
    absurd (Numeral.isWordPart_of_mem_text hmem) (by decide)
  rw [← htext, normalized_of_not_mem hunquoted, ← hvalue]
  exact reads_word numeral.text_ne_nil (fun _ => Numeral.isWordPart_of_mem_text) (Numeral.wordValue?_text hshort)

/-! ## Reading what is displayed -/

theorem spaces_space : Spaces [' '] := fun _ hc => List.mem_singleton.mp hc ▸ rfl

/-- What is between brackets, which are no quotes. -/
theorem normalized_enclosed {opening closing : Char} (hopening : isQuote opening = false) (hclosing : isQuote closing = false)
    (texts : List Text) : normalized (opening :: (Text.joinWith ", ".toList texts ++ [closing])) =
      opening :: (Text.joinWith ", ".toList (texts.map normalized) ++ [closing]) := by
  rw [normalized_cons_of_not_isQuote hopening, normalized_append, normalized_joinWith,
    normalized_cons_of_not_isQuote hclosing]
  rfl

theorem readsWithin_list {size : Nat} {items : List Value}
    (h : ∀ item ∈ items, ReadsWithin decoderLimits size (.value (some item.toJson)) (normalized item.displayItem)) :
    ReadsWithin decoderLimits (size + 1) (.value (some (Value.list items).toJson))
      (normalized (Value.list items).displayItem) := by
  rw [displayItem_list, normalized_enclosed (by decide) (by decide), displayItems_eq, List.map_map, toJson, toJsonItems_eq]
  by_cases hempty : items = []
  · rw [hempty]
    exact reads_empty (by decide) (by decide) spaces_nil fun _ => rfl
  · have hall : List.Forall₂ (fun item t => ReadsWithin decoderLimits size (.value (some item)) t)
        (items.map toJson) (items.map fun item => normalized item.displayItem) :=
      List.forall₂_map_left_iff.mpr (List.forall₂_map_right_iff.mpr (List.forall₂_same.mpr h))
    have hitems : ReadsWithin decoderLimits size (.items (some (items.map toJson)))
        ([] ++ (Text.joinWith (',' :: [' ']) (items.map fun item => normalized item.displayItem) ++ [])) := by
      refine forall_joined (S := fun items t => ReadsWithin decoderLimits size (.items (some items)) t) spaces_space
        ?_ ?_ spaces_nil hall (by simpa using hempty)
      · intro item t before hbefore hitem
        exact reads_lastItem hbefore hitem spaces_nil
      · intro item items t before more hbefore hitem hmore
        exact reads_item hbefore hitem spaces_nil hmore
    rw [List.nil_append, List.append_nil] at hitems
    exact reads_array hitems

theorem readsWithin_field {size : Nat} {field : Text × Value} (hkey : field.1.Plain)
    (h : ReadsWithin decoderLimits size (.value (some field.2.toJson)) (normalized field.2.displayItem)) :
    ReadsWithin decoderLimits size (.field (some (field.1, field.2.toJson)))
      (normalized ('\'' :: (field.1 ++ ['\'']) ++ (": ".toList ++ field.2.displayItem))) := by
  obtain ⟨hbody, hchars⟩ := body_plain hkey
  have hfield := reads_field hbody spaces_nil spaces_space h
  rw [hchars] at hfield
  rw [normalized_append, normalized_quoted hkey, normalized_append]
  exact hfield

theorem readsWithin_record {size : Nat} {fields : List (Text × Value)} (hnodup : (Fields.keys fields).Nodup)
    (hkeys : ∀ field ∈ fields, field.1.Plain)
    (h : ∀ field ∈ fields,
      ReadsWithin decoderLimits size (.value (some field.2.toJson)) (normalized field.2.displayItem)) :
    ReadsWithin decoderLimits (size + 1) (.value (some (Value.record fields).toJson))
      (normalized (Value.record fields).displayItem) := by
  rw [displayItem_record, normalized_enclosed (by decide) (by decide), displayFields_eq, List.map_map, toJson,
    toJsonFields_eq]
  by_cases hempty : fields = []
  · rw [hempty]
    exact reads_empty (by decide) (by decide) spaces_nil fun _ => rfl
  · have hall : List.Forall₂ (fun field t => ReadsWithin decoderLimits size (.field (some field)) t)
        (fields.map fun field => (field.1, field.2.toJson))
        (fields.map fun field => normalized ('\'' :: (field.1 ++ ['\'']) ++ (": ".toList ++ field.2.displayItem))) :=
      List.forall₂_map_left_iff.mpr (List.forall₂_map_right_iff.mpr (List.forall₂_same.mpr
        fun field hfield => readsWithin_field (hkeys field hfield) (h field hfield)))
    have hfields : ReadsWithin decoderLimits size (.fields (some (fields.map fun field => (field.1, field.2.toJson))))
        ([] ++ (Text.joinWith (',' :: [' ']) (fields.map fun field =>
          normalized ('\'' :: (field.1 ++ ['\'']) ++ (": ".toList ++ field.2.displayItem))) ++ [])) := by
      refine forall_joined (S := fun fields t => ReadsWithin decoderLimits size (.fields (some fields)) t) spaces_space
        ?_ ?_ spaces_nil hall (by simpa using hempty)
      · intro field t before hbefore hfield
        exact reads_lastField hbefore hfield spaces_nil
      · intro field fields t before more hbefore hfield hmore
        exact reads_fields hbefore hfield spaces_nil hmore
    have hsame : Fields.ofList (fields.map fun field => (field.1, field.2.toJson)) =
        fields.map fun field => (field.1, field.2.toJson) := by
      refine Fields.ofList_of_nodup ?_
      rw [Fields.keys, List.map_map]
      exact hnodup
    rw [List.nil_append, List.append_nil] at hfields
    have hobject := reads_object hfields
    rw [Option.map_some, hsame] at hobject
    exact hobject

/-- What is displayed of a plain value is read as the document of the value. -/
theorem readsWithin_displayItem {v : Value} (h : v.Plain) :
    ReadsWithin decoderLimits v.depth (.value (some v.toJson)) (normalized v.displayItem) := by
  induction h with
  | @number x h =>
    obtain ⟨n, hwhole, hsmall, -⟩ := h
    have htext : (Value.number x).displayItem = Text.ofInt n := PlainNumber.display hwhole hsmall
    rw [htext, toJson, hwhole, Value.depth]
    exact readsWithin_ofInt hsmall
  | @text t h =>
    obtain ⟨hbody, hchars⟩ := body_plain h
    have htext : ReadsWithin decoderLimits 0 _ _ := reads_text hbody
    rw [displayItem_text, normalized_quoted h, Value.depth, toJson]
    rwa [hchars] at htext
  | @list items _ ih =>
    have hdepth := depthOfItems_le_iff.mp (Nat.le_refl (depthOfItems items))
    rw [Value.depth]
    exact readsWithin_list fun item hitem => (ih item hitem).mono (hdepth item hitem)
  | @record fields hnodup hkeys _ ih =>
    have hdepth := depthOfFields_le_iff.mp (Nat.le_refl (depthOfFields fields))
    rw [Value.depth]
    exact readsWithin_record hnodup hkeys fun field hfield => (ih field hfield).mono (hdepth field hfield)

/-! ## The count of the brackets -/

/-- The text goes at most so many levels deep, and comes back from them. -/
def Nests (levels : Nat) (t : Text) : Prop :=
  ∀ (depth : Int) (rest : Text),
    nestingFrom none depth (t ++ rest) ≤ max (depth + levels) (nestingFrom none depth rest)

theorem Nests.nesting_le {levels : Nat} (h : Nests levels t) : nesting t ≤ levels := by
  have hcount := h 0 []
  rw [List.append_nil, nestingFrom] at hcount
  rw [nesting]
  omega

theorem Nests.mono {low high : Nat} (h : Nests low t) (hle : low ≤ high) : Nests high t := by
  intro depth rest
  have hcount := h depth rest
  omega

theorem Nests.append {levels : Nat} {u : Text} (ht : Nests levels t) (hu : Nests levels u) : Nests levels (t ++ u) := by
  intro depth rest
  have hfirst := ht depth (u ++ rest)
  have hsecond := hu depth rest
  rw [List.append_assoc]
  omega

theorem nests_of_unbracketed (h : ∀ c ∈ t, isQuote c = false ∧ c ∉ ['[', ']', '\x7b', '\x7d']) : Nests 0 t := by
  intro depth rest
  induction t with
  | nil => exact Int.le_max_right _ _
  | cons c cs ih =>
    obtain ⟨⟨hquote, hbracket⟩, hcs⟩ := List.forall_mem_cons.mp h
    have hrest := ih hcs
    rw [List.cons_append, nestingFrom_cons_plain hquote, nestingAfter_of_not_bracket hbracket]
    omega

/-- Inside of a literal nothing is counted. -/
theorem nests_quoted (h : t.Plain) : Nests 0 ('\'' :: (t ++ ['\''])) := by
  intro depth rest
  have hinside : nestingFrom (some '\'') depth (t ++ ['\''] ++ rest) = max depth (nestingFrom none depth rest) := by
    induction t with
    | nil => exact nestingFrom_quoted '\'' '\'' depth rest
    | cons c cs ih =>
      obtain ⟨⟨hquote, -⟩, hcs⟩ := List.forall_mem_cons.mp h
      have hstays : Quote.after (some '\'') c = some '\'' := by
        refine if_neg ?_
        rintro rfl
        cases hquote
      have hrest := ih hcs
      rw [List.cons_append, List.cons_append, nestingFrom_quoted, hstays]
      omega
  rw [List.cons_append, nestingFrom_opening rfl, hinside]
  omega

theorem Nests.joinWith {levels : Nat} {texts : List Text} (h : ∀ t ∈ texts, Nests levels t) :
    Nests levels (Text.joinWith ", ".toList texts) := by
  induction texts with
  | nil => exact (nests_of_unbracketed (List.forall_mem_nil _)).mono (Nat.zero_le levels)
  | cons first rest ih =>
    obtain ⟨hfirst, hrest⟩ := List.forall_mem_cons.mp h
    cases rest with
    | nil => rwa [Text.joinWith_singleton]
    | cons second more =>
      have hseparator : Nests 0 ", ".toList := nests_of_unbracketed (by decide)
      rw [Text.joinWith_cons_cons]
      exact hfirst.append ((hseparator.mono (Nat.zero_le levels)).append (ih hrest))

theorem Nests.enclosed {levels : Nat} {opening closing : Char} (hopening : opening = '[' ∨ opening = '\x7b')
    (hclosing : closing = ']' ∨ closing = '\x7d') (h : Nests levels t) :
    Nests (levels + 1) (opening :: (t ++ [closing])) := by
  intro depth rest
  have hinner := h (depth + 1) (closing :: rest)
  have hup : nestingFrom none depth (opening :: (t ++ closing :: rest)) =
      max (depth + 1) (nestingFrom none (depth + 1) (t ++ closing :: rest)) := by
    rcases hopening with rfl | rfl <;> exact nestingFrom_cons_plain rfl _ _
  have hdown : nestingFrom none (depth + 1) (closing :: rest) =
      max (depth + 1 - 1) (nestingFrom none (depth + 1 - 1) rest) := by
    rcases hclosing with rfl | rfl <;> exact nestingFrom_cons_plain rfl _ _
  rw [List.cons_append, List.append_assoc, List.singleton_append, hup]
  rw [hdown, Int.add_sub_cancel] at hinner
  omega

theorem nests_ofInt (n : Int) : Nests 0 (Text.ofInt n) := by
  obtain ⟨numeral, htext, -⟩ := exists_numeral_ofInt n
  rw [← htext]
  refine nests_of_unbracketed fun c hc => ?_
  have hword := Numeral.isWordPart_of_mem_text hc
  have hmark : ∀ d, isWordPart d = false → c ≠ d := fun d hd => Text.ne_of_class hword hd
  simp [isQuote, hmark '\'' (by decide), hmark '"' (by decide), hmark '[' (by decide), hmark ']' (by decide),
    hmark '\x7b' (by decide), hmark '\x7d' (by decide)]

/-- The count is not higher than the value is deep. -/
theorem nests_displayItem {v : Value} (h : v.Plain) : Nests v.depth v.displayItem := by
  induction h with
  | @number x h =>
    obtain ⟨n, hwhole, hsmall, -⟩ := h
    have htext : (Value.number x).displayItem = Text.ofInt n := PlainNumber.display hwhole hsmall
    rw [htext, Value.depth]
    exact nests_ofInt n
  | text h =>
    rw [displayItem_text, Value.depth]
    exact nests_quoted h
  | @list items _ ih =>
    have hdepth := depthOfItems_le_iff.mp (Nat.le_refl (depthOfItems items))
    rw [displayItem_list, displayItems_eq, Value.depth]
    refine Nests.enclosed (Or.inl rfl) (Or.inl rfl) (.joinWith (List.forall_mem_map.mpr fun item hitem => ?_))
    exact (ih item hitem).mono (hdepth item hitem)
  | @record fields _ hkeys _ ih =>
    have hdepth := depthOfFields_le_iff.mp (Nat.le_refl (depthOfFields fields))
    have hcolon : Nests 0 ": ".toList := nests_of_unbracketed (by decide)
    rw [displayItem_record, displayFields_eq, Value.depth]
    refine Nests.enclosed (Or.inr rfl) (Or.inr rfl) (.joinWith (List.forall_mem_map.mpr fun field hfield => ?_))
    have hkey := (nests_quoted (hkeys field hfield)).mono (Nat.zero_le (depthOfFields fields))
    exact hkey.append ((hcolon.mono (Nat.zero_le _)).append ((ih field hfield).mono (hdepth field hfield)))

/-! ## The whole way -/

theorem trim_display (items : List Value) : Text.trim (Value.list items).display = (Value.list items).display := by
  have hlast : (Value.list items).display.getLast? = some ']' := by
    have hend : (Value.list items).display = '[' :: Text.joinWith ", ".toList (displayItems items) ++ [']'] := rfl
    rw [hend, List.getLast?_concat]
  exact Text.trim_of_ends rfl (by decide : Text.isBlank '[' = false) hlast (by decide)

/-- A list of plain texts, whole numbers, and lists and records of them is read back from what is displayed
of it, whatever the memory holds, unless it is deeper than the limit. -/
theorem coerce_display (memory : Memory) {items : List Value} (h : (Value.list items).Plain)
    (hdepth : ((Value.list items).depth : Int) ≤ maxNesting) :
    coerce memory (Value.list items).display = .ok (.list items) := by
  have hsame : (Value.list items).display = (Value.list items).displayItem := rfl
  have hhead : (Value.list items).display.head? = some '[' := rfl
  have hnesting : ¬ maxNesting < nesting (Value.list items).display := by
    have hcount := (nests_displayItem h).nesting_le
    rw [hsame]
    omega
  have hdeep : (Value.list items).depth ≤ decoderLimits.nesting := by
    have hlimit : maxNesting = 64 := rfl
    have hbears : decoderLimits.nesting = 990 := rfl
    omega
  have hread : Json.read? decoderLimits (Text.replaceChar '\'' '"' (Value.list items).display) =
      some (.array (toJsonItems items)) := by
    have hnormal := read?_of_readsWithin (readsWithin_displayItem h) hdeep spaces_nil spaces_nil
    rw [List.append_nil, List.nil_append, toJson] at hnormal
    exact hnormal
  have hitems : Value.ofJsonItems (toJsonItems items) = .ok items := by
    cases h with
    | list h =>
      rw [toJsonItems_eq]
      exact ofJsonItems_map fun item hitem => (h item hitem).ofJson_toJson
  have hlist : readList (Value.list items).display = .ok items := by
    rw [readList, if_neg hnesting, hread]
    exact hitems
  simp only [coerce, trim_display, scalar?_of_bracket hhead, hhead, if_true, hlist]
  rfl

/-- Lists and records in each other, brackets and commas in a text, a key that is no name, and an empty text. -/
def shelf : List Value :=
  [.text "a [b], c".toList, .number (.nearest true 12 1),
    .list [.record [("the key".toList, .list []), ("n".toList, .number .zero)], .text []]]

theorem plain_shelf : (Value.list shelf).Plain := by
  have hnumber : PlainNumber (.nearest true 12 1) := ⟨-12, by decide +kernel, by decide, by decide⟩
  have hzero : PlainNumber .zero := ⟨0, by decide +kernel, by decide, fun _ => by decide +kernel⟩
  have hrecord : (Value.record [("the key".toList, .list []), ("n".toList, .number .zero)]).Plain := by
    refine .record (by decide) (by decide) ?_
    simp only [List.forall_mem_cons]
    exact ⟨.list (List.forall_mem_nil _), .number hzero, List.forall_mem_nil _⟩
  have hinner : (Value.list [.record [("the key".toList, .list []), ("n".toList, .number .zero)], .text []]).Plain := by
    refine .list ?_
    simp only [List.forall_mem_cons]
    exact ⟨hrecord, .text (by decide), List.forall_mem_nil _⟩
  refine .list ?_
  simp only [shelf, List.forall_mem_cons]
  exact ⟨.text (by decide), .number hnumber, hinner, List.forall_mem_nil _⟩

theorem coerce_display_shelf :
    (Value.list shelf).Plain ∧ ((Value.list shelf).depth : Int) ≤ maxNesting ∧
    (Value.list shelf).display = "['a [b], c', -12, [\x7b'the key': [], 'n': 0\x7d, '']]".toList ∧
    coerce [] "['a [b], c', -12, [\x7b'the key': [], 'n': 0\x7d, '']]".toList = .ok (.list shelf) := by
  have hdepth : ((Value.list shelf).depth : Int) ≤ maxNesting := by decide +kernel
  have hdisplay : (Value.list shelf).display = "['a [b], c', -12, [\x7b'the key': [], 'n': 0\x7d, '']]".toList := by
    decide +kernel
  have hread := coerce_display [] plain_shelf hdepth
  rw [hdisplay] at hread
  exact ⟨plain_shelf, hdepth, hdisplay, hread⟩

end Literal

end SnippetTutor
