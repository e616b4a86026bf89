import SnippetTutor.Proofs.Json.Nesting
import SnippetTutor.Proofs.Literal.Fault

/-! # The guard against deep lists

Before a list is decoded its brackets are counted, so that no deep list is decoded. The count reads the
quotes of the token as they are, and the decoder reads each of them as a double quote, and backslashes as
escapes. Where the two see the same literals the count is that of the decoder. Elsewhere brackets of a
list can stand in what the count takes for a literal.
-/
namespace SnippetTutor

namespace Value
open Json Outcome

mutual

/-- The levels of lists and records. -/
def depth : Value → Nat
  | .list items => depthOfItems items + 1
  | .record fields => depthOfFields fields + 1
  | .number _ | .text _ | .bool _ | .function _ | .undefined => 0

def depthOfItems : List Value → Nat
  | [] => 0
  | item :: rest => max (depth item) (depthOfItems rest)

def depthOfFields : List (Text × Value) → Nat
  | [] => 0
  | (_, value) :: rest => max (depth value) (depthOfFields rest)

end

theorem depthOfItems_le_iff {items : List Value} {n : Nat} :
    depthOfItems items ≤ n ↔ ∀ item ∈ items, item.depth ≤ n := by
  induction items with
  | nil => simp [depthOfItems]
  | cons item rest ih => rw [depthOfItems, Nat.max_le, ih, List.forall_mem_cons]

theorem depthOfFields_le_iff {fields : List (Text × Value)} {n : Nat} :
    depthOfFields fields ≤ n ↔ ∀ field ∈ fields, field.2.depth ≤ n := by
  induction fields with
  | nil => simp [depthOfFields]
  | cons field rest ih => rw [depthOfFields, Nat.max_le, ih, List.forall_mem_cons]

mutual

/-- A value is nested like the document that it is read from. -/
theorem depth_ofJson {j : Json} {v : Value} (h : ofJson j = .ok v) : v.depth = j.depth := by
  cases j with
  | int n =>
    rw [ofJson, ofWhole] at h
    cases hn : Number.ofInt? n with
    | none =>
      rw [hn] at h
      cases h
    | some x =>
      rw [hn] at h
      cases h
      rw [depth, Json.depth]
  | array items =>
    obtain ⟨read, hread, h⟩ := bind_eq_ok.mp h
    cases h
    rw [depth, Json.depth, depth_ofJsonItems hread]
  | object fields =>
    obtain ⟨read, hread, h⟩ := bind_eq_ok.mp h
    cases h
    rw [depth, Json.depth, depth_ofJsonFields hread]
  | null | bool | number | text =>
    cases h
    rw [depth, Json.depth]

theorem depth_ofJsonItems {items : List Json} {read : List Value} (h : ofJsonItems items = .ok read) :
    depthOfItems read = Json.depthOfItems items := by
  cases items with
  | nil =>
    cases h
    rfl
  | cons item rest =>
    obtain ⟨v, hv, h⟩ := bind_eq_ok.mp h
    obtain ⟨more, hmore, h⟩ := bind_eq_ok.mp h
    cases h
    rw [depthOfItems, Json.depthOfItems, depth_ofJson hv, depth_ofJsonItems hmore]

theorem depth_ofJsonFields {fields : List (Text × Json)} {read : List (Text × Value)}
    (h : ofJsonFields fields = .ok read) : depthOfFields read = Json.depthOfFields fields := by
  match fields with
  | [] =>
    cases h
    rfl
  | (key, value) :: rest =>
    obtain ⟨v, hv, h⟩ := bind_eq_ok.mp h
    obtain ⟨more, hmore, h⟩ := bind_eq_ok.mp h
    cases h
    rw [depthOfFields, Json.depthOfFields, depth_ofJson hv, depth_ofJsonFields hmore]

end

end Value

namespace Literal
variable {token t : Text} {quote : Quote} {items : List Value}

/-- The text that the decoder reads. -/
def normalized (token : Text) : Text := Text.replaceChar '\'' '"' token

/-- The greatest number of brackets that the decoder has open at once. -/
def structuralNesting (token : Text) : Int := nesting (Json.bare false (normalized token))

/-- Inside of a literal there is no backslash and no quote but the one that ends it. -/
def PlainlyQuotedFrom : Quote → Text → Prop
  | _, [] => True
  | none, c :: rest => PlainlyQuotedFrom (Quote.after none c) rest
  | some q, c :: rest => c ≠ '\\' ∧ (isQuote c = true → c = q) ∧ PlainlyQuotedFrom (Quote.after (some q) c) rest

instance decidablePlainlyQuotedFrom : (quote : Quote) → (t : Text) → Decidable (PlainlyQuotedFrom quote t)
  | _, [] => isTrue trivial
  | none, c :: rest => decidablePlainlyQuotedFrom (Quote.after none c) rest
  | some q, c :: rest =>
    have : Decidable (PlainlyQuotedFrom (Quote.after (some q) c) rest) := decidablePlainlyQuotedFrom _ rest
    inferInstanceAs (Decidable (_ ∧ _ ∧ _))

def PlainlyQuoted (token : Text) : Prop := PlainlyQuotedFrom none token

instance (token : Text) : Decidable (PlainlyQuoted token) := decidablePlainlyQuotedFrom none token

theorem normalized_cons (c : Char) (t : Text) : normalized (c :: t) = (if c = '\'' then '"' else c) :: normalized t := rfl

theorem single_not_mem_normalized (token : Text) : '\'' ∉ normalized token := by
  intro h
  obtain ⟨c, -, hc⟩ := List.mem_map.mp h
  split at hc
  · exact absurd hc (by decide)
  · next hne => exact hne hc

/-- The text that is left in this state of the quotes. -/
def bareFrom (quote : Quote) (t : Text) : Text := Json.bare quote.isSome (normalized t)

theorem normalized_cons_of_isQuote {c : Char} (h : isQuote c = true) (t : Text) :
    normalized (c :: t) = '"' :: normalized t := by
  rw [normalized_cons]
  split
  · rfl
  · next hne =>
    obtain rfl : c = '"' := by simpa [isQuote, hne] using h
    rfl

theorem normalized_cons_of_not_isQuote {c : Char} (h : isQuote c = false) (t : Text) :
    normalized (c :: t) = c :: normalized t := by
  rw [normalized_cons, if_neg]
  rintro rfl
  cases h

theorem ne_of_not_isQuote {c : Char} (h : isQuote c = false) : c ≠ '"' := by
  rintro rfl
  cases h

theorem nestingFrom_opening {c : Char} (h : isQuote c = true) (depth : Int) (t : Text) :
    nestingFrom none depth (c :: t) = max depth (nestingFrom (some c) depth t) := by
  simp [nestingFrom, Quote.isPlain, Quote.after, h]

theorem nestingFrom_quoted (q c : Char) (depth : Int) (t : Text) :
    nestingFrom (some q) depth (c :: t) = max depth (nestingFrom (Quote.after (some q) c) depth t) := by
  simp [nestingFrom, Quote.isPlain]

/-- Plainly quoted literals begin and end for the decoder where they do for the count. -/
theorem nestingFrom_bareFrom (hquote : ∀ q ∈ quote, isQuote q = true) (h : PlainlyQuotedFrom quote t) (depth : Int) :
    max depth (nestingFrom none depth (bareFrom quote t)) = max depth (nestingFrom quote depth t) := by
  induction t generalizing quote depth with
  | nil => cases quote <;> rfl
  | cons c rest ih =>
    cases quote with
    | none =>
      cases hc : isQuote c with
      | true =>
        have hopens : Quote.after none c = some c := by simp [Quote.after, hc]
        have hbare : bareFrom none (c :: rest) = bareFrom (some c) rest := by
          rw [bareFrom, normalized_cons_of_isQuote hc]
          rfl
        rw [PlainlyQuotedFrom, hopens] at h
        have hrest := ih (fun q hq => Option.some.inj hq ▸ hc) h depth
        rw [hbare, nestingFrom_opening hc]
        omega
      | false =>
        have hstays : Quote.after none c = none := by simp [Quote.after, hc]
        have hbare : bareFrom none (c :: rest) = c :: bareFrom none rest := by
          rw [bareFrom, normalized_cons_of_not_isQuote hc]
          exact if_neg (ne_of_not_isQuote hc)
        rw [PlainlyQuotedFrom, hstays] at h
        have hrest := ih (by simp) h (nestingAfter depth c)
        rw [hbare, nestingFrom_cons_plain hc, nestingFrom_cons_plain hc]
        omega
    | some q =>
      obtain ⟨hslash, hother, h⟩ := h
      rw [nestingFrom_quoted]
      by_cases hc : c = q
      · subst hc
        have hcloses : Quote.after (some c) c = none := if_pos rfl
        have hbare : bareFrom (some c) (c :: rest) = bareFrom none rest := by
          rw [bareFrom, normalized_cons_of_isQuote (hquote c rfl)]
          exact Json.bare_quote _
        rw [hcloses] at h ⊢
        have hrest := ih (by simp) h depth
        rw [hbare]
        omega
      · have hplain : isQuote c = false := by
          rw [← Bool.not_eq_true]
          exact mt hother hc
        have hstays : Quote.after (some q) c = some q := if_neg hc
        have hbare : bareFrom (some q) (c :: rest) = bareFrom (some q) rest := by
          rw [bareFrom, normalized_cons_of_not_isQuote hplain]
          exact Json.bare_inside (ne_of_not_isQuote hplain) hslash _
        rw [hstays] at h ⊢
        have hrest := ih hquote h depth
        rw [hbare]
        omega

theorem structuralNesting_eq_nesting (h : PlainlyQuoted token) : structuralNesting token = nesting token := by
  have hcount : max 0 (structuralNesting token) = max 0 (nesting token) := nestingFrom_bareFrom (by simp) h 0
  have hstructural : 0 ≤ structuralNesting token := nestingFrom_nonneg _ _ _
  have hnesting : 0 ≤ nesting token := nestingFrom_nonneg _ _ _
  omega

/-- Whatever the token is, what is read from it is not deeper than the decoder's count. -/
theorem depth_le_of_readList (h : readList token = .ok items) :
    ((Value.list items).depth : Int) ≤ max 1 (structuralNesting token) := by
  rw [readList_eq, decoded?] at h
  split at h
  · cases h
    exact Int.le_max_left _ _
  · split at h
    · next documents hread =>
      have hdepth := Json.depth_le_of_read? (single_not_mem_normalized token) hread
      have hsame := Value.depth_ofJsonItems h
      rw [Json.depth] at hdepth
      rw [Value.depth, hsame]
      exact Int.le_trans hdepth (Int.le_max_right _ _)
    · cases h
      exact Int.le_max_left _ _

/-- A list that is deeper than the limit has been counted wrong. -/
theorem undercounted_of_deep (h : readList token = .ok items) (hdeep : maxNesting < ((Value.list items).depth : Int)) :
    nesting token ≤ maxNesting ∧ maxNesting < structuralNesting token := by
  have hdepth := depth_le_of_readList h
  have hone : 1 ≤ maxNesting := by decide
  refine ⟨?_, by omega⟩
  by_contra hcount
  rw [readList, if_pos (by omega)] at h
  cases h
  exact absurd hdeep (by decide)

/-- No document is deeper than the brackets that the decoder finds outside its strings, and a list that is
deeper than the limit is read only where the count before has missed some of them. In a token whose literals
are plainly quoted it misses none, so that no such list is read. -/
theorem nesting_guard_of_plainlyQuoted (token : Text) :
    (∀ j, Json.read? decoderLimits (normalized token) = some j → (j.depth : Int) ≤ structuralNesting token) ∧
    (∀ items, readList token = .ok items → maxNesting < ((Value.list items).depth : Int) →
      nesting token ≤ maxNesting ∧ maxNesting < structuralNesting token) ∧
    (PlainlyQuoted token → structuralNesting token = nesting token ∧
      ∀ items, readList token = .ok items → ((Value.list items).depth : Int) ≤ maxNesting) := by
  refine ⟨fun j h => Json.depth_le_of_read? (single_not_mem_normalized token) h, fun items => undercounted_of_deep, ?_⟩
  intro hplain
  have hsame := structuralNesting_eq_nesting hplain
  refine ⟨hsame, fun items h => ?_⟩
  by_contra hdeep
  have hcount := undercounted_of_deep h (by omega)
  omega

/-- Both kinds of quotes, brackets in literals, and lists and records in each other. -/
def mixed : Text := "[['[[', 1], \x7b\"k\": [\"it]\"]\x7d]".toList

theorem nesting_guard_of_plainlyQuoted_mixed :
    PlainlyQuoted mixed ∧ nesting mixed = 3 ∧ structuralNesting mixed = 3 ∧
    ∃ items, readList mixed = .ok items ∧ ((Value.list items).depth : Int) ≤ maxNesting ∧
      (Value.list items).depth = 3 := by
  have hplain : PlainlyQuoted mixed := by decide +kernel
  have hcount : nesting mixed = 3 := by decide +kernel
  have hitems := Option.eq_some_of_isSome (o := (readList mixed).toOption) (by decide +kernel)
  obtain ⟨-, -, hguard⟩ := nesting_guard_of_plainlyQuoted mixed
  obtain ⟨hsame, hdepth⟩ := hguard hplain
  have hread := Outcome.eq_ok_of_toOption hitems
  exact ⟨hplain, hcount, hsame.trans hcount, _, hread, hdepth _ hread, by decide +kernel⟩

/-- A list of 64 levels between two quotes that the count takes for those of one literal, since it takes
the other quotes for characters of it. -/
def hidden : Text := "[\"', ".toList ++ List.replicate 64 '[' ++ List.replicate 64 ']' ++ ", '\"]".toList

/-- The count finds one bracket in it, and the decoder a list of 65 levels. -/
theorem nesting_undercounted :
    nesting hidden = 1 ∧ ¬ PlainlyQuoted hidden ∧
    (∃ j, Json.read? decoderLimits (normalized hidden) = some j ∧ nesting hidden < j.depth) ∧
    ∃ items, readList hidden = .ok items ∧ maxNesting < ((Value.list items).depth : Int) := by
  have hdecoded := Option.eq_some_of_isSome (o := Json.read? decoderLimits (normalized hidden)) (by decide +kernel)
  have hitems := Option.eq_some_of_isSome (o := (readList hidden).toOption) (by decide +kernel)
  exact ⟨by decide +kernel, by decide +kernel, ⟨_, hdecoded, by decide +kernel⟩, _, Outcome.eq_ok_of_toOption hitems,
    by decide +kernel⟩

end Literal

end SnippetTutor
