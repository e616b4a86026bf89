import SnippetTutor.Json.Reader

/-! # What one step of the reader does

What a character does to the scan is stated once, with the tokens that are complete at it, and so is
what a token does to the values and to the arrays and objects that are open. What is to be shown of a
whole document is then shown of the single moves.
-/
namespace SnippetTutor.Json
variable {limits : Limits} {t word : Text} {ts : List Token}

/-! ## Characters -/

/-- The tokens of a gathered word, which are none if nothing has been gathered. -/
inductive WordTokens (limits : Limits) : Text → List Token → Prop
  | nil : WordTokens limits [] []
  | scalar {word : Text} {value : Json} (h : wordValue? limits word.reverse = some value) :
      WordTokens limits word [.scalar value]

theorem exists_of_endWord {following : Option (List Token)} (h : endWord limits word following = some ts) :
    ∃ ended rest, WordTokens limits word ended ∧ following = some rest ∧ ts = ended ++ rest := by
  unfold endWord at h
  split at h
  · next hword =>
    subst hword
    exact ⟨[], ts, .nil, h, rfl⟩
  · obtain ⟨value, hvalue, h⟩ := Option.bind_eq_some_iff.mp h
    obtain ⟨rest, hrest, rfl⟩ := Option.map_eq_some_iff.mp h
    exact ⟨[.scalar value], rest, .scalar hvalue, hrest, rfl⟩

/-- From one state to the next one by a character, at which some tokens are complete. -/
inductive Scan.Moves (limits : Limits) : Scan → Char → List Token → Scan → Prop
  | word {word : Text} {c : Char} (hc : isWordPart c = true) : Moves limits (.plain word) c [] (.plain (c :: word))
  | space {word : Text} {c : Char} {ended : List Token} (hended : WordTokens limits word ended)
      (hc : isSpace c = true) : Moves limits (.plain word) c ended (.plain [])
  | opening {word : Text} {ended : List Token} (hended : WordTokens limits word ended) :
      Moves limits (.plain word) '"' ended (.quoted [])
  | mark {word : Text} {c : Char} {ended : List Token} (hended : WordTokens limits word ended)
      (hc : isMark c = true) : Moves limits (.plain word) c (ended ++ [.mark c]) (.plain [])
  | closing {points : List Nat} {t : Text} (ht : charsOf points.reverse = some t) :
      Moves limits (.quoted points) '"' [.text t] (.plain [])
  | slash {points : List Nat} : Moves limits (.quoted points) '\\' [] (.escaped points)
  | inside {points : List Nat} {c : Char} (hquote : c ≠ '"') (hslash : c ≠ '\\') (hlow : 0x20 ≤ c.toNat) :
      Moves limits (.quoted points) c [] (.quoted (c.toNat :: points))
  | code {points : List Nat} : Moves limits (.escaped points) 'u' [] (.coded points [])
  | escape {points : List Nat} {c e : Char} (he : simpleEscape? c = some e) :
      Moves limits (.escaped points) c [] (.quoted (e.toNat :: points))
  | digit {points digits : List Nat} {c : Char} {d : Nat} (hd : Text.hexDigit? c = some d)
      (hlength : digits.length ≠ 3) : Moves limits (.coded points digits) c [] (.coded points (d :: digits))
  | lastDigit {points digits : List Nat} {c : Char} {d : Nat} (hd : Text.hexDigit? c = some d)
      (hlength : digits.length = 3) : Moves limits (.coded points digits) c []
        (.quoted (Text.numberOf 16 (d :: digits).reverse :: points))

theorem exists_moves_of_scan_cons {s : Scan} {c : Char} (h : scan limits s (c :: t) = some ts) :
    ∃ ended next rest, s.Moves limits c ended next ∧ scan limits next t = some rest ∧ ts = ended ++ rest := by
  cases s with
  | plain word =>
    simp only [scan] at h
    split at h
    · next hc => exact ⟨[], .plain (c :: word), ts, .word hc, h, rfl⟩
    · obtain ⟨ended, following, hended, hfollowing, rfl⟩ := exists_of_endWord h
      split at hfollowing
      · next hc => exact ⟨ended, .plain [], following, .space hended hc, hfollowing, rfl⟩
      · split at hfollowing
        · next hc =>
          subst hc
          exact ⟨ended, .quoted [], following, .opening hended, hfollowing, rfl⟩
        · split at hfollowing
          · next hc =>
            obtain ⟨rest, hrest, rfl⟩ := Option.map_eq_some_iff.mp hfollowing
            exact ⟨ended ++ [.mark c], .plain [], rest, .mark hended hc, hrest, by simp⟩
          · cases hfollowing
  | quoted points =>
    simp only [scan] at h
    split at h
    · next hc =>
      subst hc
      obtain ⟨text, htext, h⟩ := Option.bind_eq_some_iff.mp h
      obtain ⟨rest, hrest, rfl⟩ := Option.map_eq_some_iff.mp h
      exact ⟨[.text text], .plain [], rest, .closing htext, hrest, rfl⟩
    · next hquote =>
      split at h
      · next hc =>
        subst hc
        exact ⟨[], .escaped points, ts, .slash, h, rfl⟩
      · next hslash =>
        split at h
        · cases h
        · next hlow => exact ⟨[], _, ts, .inside hquote hslash (Nat.not_lt.mp hlow), h, rfl⟩
  | escaped points =>
    simp only [scan] at h
    split at h
    · next hc =>
      subst hc
      exact ⟨[], .coded points [], ts, .code, h, rfl⟩
    · obtain ⟨e, he, h⟩ := Option.bind_eq_some_iff.mp h
      exact ⟨[], _, ts, .escape he, h, rfl⟩
  | coded points digits =>
    obtain ⟨d, hd, h⟩ := Option.bind_eq_some_iff.mp h
    split at h
    · next hlength => exact ⟨[], _, ts, .lastDigit hd hlength, h, rfl⟩
    · next hlength => exact ⟨[], _, ts, .digit hd hlength, h, rfl⟩

/-- What holds at the end of a text and is kept by the moves backwards holds of the tokens of all texts. -/
theorem scan_induction {P : Scan → Text → List Token → Prop}
    (hend : ∀ {word ended}, WordTokens limits word ended → P (.plain word) [] ended)
    (hmove : ∀ {s c ended next t ts}, s.Moves limits c ended next → P next t ts → P s (c :: t) (ended ++ ts))
    {s : Scan} (h : scan limits s t = some ts) : P s t ts := by
  induction t generalizing s ts with
  | nil =>
    cases s with
    | plain word =>
      obtain ⟨ended, rest, hended, hrest, rfl⟩ := exists_of_endWord h
      cases hrest
      rw [List.append_nil]
      exact hend hended
    | quoted | escaped | coded => cases h
  | cons c t ih =>
    obtain ⟨ended, next, rest, hmoves, hrest, rfl⟩ := exists_moves_of_scan_cons h
    exact hmove hmoves (ih hrest)

/-! ## Tokens -/

/-- What a reading awaits after the token that a value starts with. -/
inductive StartsValue : Token → Awaits → Prop
  | scalar (value : Json) : StartsValue (.scalar value) (.separator value)
  | text (t : Text) : StartsValue (.text t) (.separator (.text t))
  | array : StartsValue (.mark '[') .firstItem
  | object : StartsValue (.mark '\x7b') .firstKey

namespace Reading
variable {r : Reading} {u : Token} {stack : List Open}

theorem exists_startsValue (h : value stack u = some r) : ∃ awaits, StartsValue u awaits ∧ r = ⟨awaits, stack⟩ := by
  cases u with
  | scalar v =>
    cases h
    exact ⟨_, .scalar v, rfl⟩
  | text t =>
    cases h
    exact ⟨_, .text t, rfl⟩
  | mark c =>
    simp only [value] at h
    split at h
    · next hc =>
      subst hc
      cases h
      exact ⟨_, .array, rfl⟩
    · split at h
      · next hc =>
        subst hc
        cases h
        exact ⟨_, .object, rfl⟩
      · cases h

theorem eq_mark_of_isClosing {c : Char} (h : isClosing c u = true) : u = .mark c := by
  cases u with
  | mark d => rw [show d = c from eq_of_beq h]
  | text | scalar => cases h

/-- From one reading to the next one by a token. -/
inductive Moves (limits : Limits) : Reading → Token → Reading → Prop
  | value {stack : List Open} {u : Token} {awaits : Awaits} (h : StartsValue u awaits) :
      Moves limits ⟨.value, stack⟩ u ⟨awaits, stack⟩
  | emptyArray {stack : List Open} : Moves limits ⟨.firstItem, stack⟩ (.mark ']') ⟨.separator (.array []), stack⟩
  | firstItem {stack : List Open} {u : Token} {awaits : Awaits} (hroom : stack.length < limits.nesting)
      (h : StartsValue u awaits) : Moves limits ⟨.firstItem, stack⟩ u ⟨awaits, .array [] :: stack⟩
  | emptyObject {stack : List Open} : Moves limits ⟨.firstKey, stack⟩ (.mark '\x7d') ⟨.separator (.object []), stack⟩
  | firstKey {stack : List Open} {key : Text} (hroom : stack.length < limits.nesting) :
      Moves limits ⟨.firstKey, stack⟩ (.text key) ⟨.colon [] key, stack⟩
  | key {stack : List Open} {fields : List (Text × Json)} {key : Text} :
      Moves limits ⟨.key fields, stack⟩ (.text key) ⟨.colon fields key, stack⟩
  | colon {stack : List Open} {fields : List (Text × Json)} {key : Text} :
      Moves limits ⟨.colon fields key, stack⟩ (.mark ':') ⟨.value, .object fields key :: stack⟩
  | nextItem {outer : List Open} {items : List Json} {done : Json} :
      Moves limits ⟨.separator done, .array items :: outer⟩ (.mark ',') ⟨.value, .array (done :: items) :: outer⟩
  | closeArray {outer : List Open} {items : List Json} {done : Json} :
      Moves limits ⟨.separator done, .array items :: outer⟩ (.mark ']')
        ⟨.separator (.array (done :: items).reverse), outer⟩
  | nextField {outer : List Open} {fields : List (Text × Json)} {key : Text} {done : Json} :
      Moves limits ⟨.separator done, .object fields key :: outer⟩ (.mark ',') ⟨.key ((key, done) :: fields), outer⟩
  | closeObject {outer : List Open} {fields : List (Text × Json)} {key : Text} {done : Json} :
      Moves limits ⟨.separator done, .object fields key :: outer⟩ (.mark '\x7d')
        ⟨.separator (.object (Fields.ofList ((key, done) :: fields).reverse)), outer⟩

theorem moves_of_separator {done : Json} (h : separator done stack u = some r) :
    Moves limits ⟨.separator done, stack⟩ u r := by
  unfold separator at h
  split at h
  · split at h
    · next hc =>
      subst hc
      cases h
      exact .nextItem
    · split at h
      · next hc =>
        subst hc
        cases h
        exact .closeArray
      · cases h
  · split at h
    · next hc =>
      subst hc
      cases h
      exact .nextField
    · split at h
      · next hc =>
        subst hc
        cases h
        exact .closeObject
      · cases h
  · cases h

theorem moves_of_step {s : Reading} (h : step limits r u = some s) : r.Moves limits u s := by
  obtain ⟨awaits, stack⟩ := r
  cases awaits with
  | value =>
    obtain ⟨awaits, hstarts, rfl⟩ := exists_startsValue h
    exact .value hstarts
  | firstItem =>
    simp only [step] at h
    split at h
    · next hclosing =>
      cases h
      rw [eq_mark_of_isClosing hclosing]
      exact .emptyArray
    · split at h
      · cases h
      · next hroom =>
        obtain ⟨awaits, hstarts, rfl⟩ := exists_startsValue h
        exact .firstItem (Nat.not_le.mp hroom) hstarts
  | firstKey =>
    simp only [step] at h
    split at h
    · next hclosing =>
      cases h
      rw [eq_mark_of_isClosing hclosing]
      exact .emptyObject
    · split at h
      · cases h
      · next hroom =>
        split at h
        all_goals cases h
        exact .firstKey (Nat.not_le.mp hroom)
  | key fields =>
    simp only [step] at h
    split at h
    all_goals cases h
    exact .key
  | colon fields key =>
    simp only [step] at h
    split at h
    · next hclosing =>
      cases h
      rw [eq_mark_of_isClosing hclosing]
      exact .colon
    · cases h
  | separator done => exact moves_of_separator h

theorem eq_of_result? {j : Json} (h : r.result? = some j) : r = ⟨.separator j, []⟩ := by
  obtain ⟨awaits, stack⟩ := r
  unfold result? at h
  split at h
  · next hawaits hstack =>
    cases h
    rw [show awaits = _ from hawaits, show stack = _ from hstack]
  · cases h

end Reading

/-- The tokens of a document that is read leave nothing open. -/
theorem exists_tokens_of_read? {j : Json} (h : read? limits t = some j) : ∃ ts, tokens? limits t = some ts ∧
    ts.foldlM (Reading.step limits) .start = some ⟨.separator j, []⟩ := by
  obtain ⟨ts, hts, h⟩ := Option.bind_eq_some_iff.mp h
  obtain ⟨r, hr, h⟩ := Option.bind_eq_some_iff.mp h
  rw [Reading.eq_of_result? h] at hr
  exact ⟨ts, hts, hr⟩

end SnippetTutor.Json
