import SnippetTutor.Proofs.Machine.Line

/-! # Quoted text in a program

A literal can be assigned, printed, passed to a function and appended to a list. In each of these places
it stands for its content, whatever that looks like: no comment, sum, argument or call is seen in it.
That statements have results is said for a stack without bounds (`Fault`).
-/
namespace SnippetTutor.Machine
open Arguments Literal Outcome Statement Text
variable {config : Config} {m : Machine} {q : Char} {s x f xs : Text} {items : List Value} {fn : Function}

theorem feed_not_mem_inQuotes (h : Quotable q s) (hline : '\n' ∉ s) : '\n' ∉ inQuotes q s := by
  have hquote : '\n' ≠ q := by
    rintro rfl
    cases h.1
  simp [inQuotes, hquote, hline]

theorem separable_inQuotes (h : Quotable q s) : Separable (inQuotes q s) :=
  ⟨List.cons_ne_nil _ _, trim_inQuotes h.1 s, uncut_inQuotes h, closed_inQuotes h⟩

theorem bare_name {name : Text} (h : IsName name) : Bare '#' name := bare_of_isName (by decide) (by decide +kernel) h

theorem uncommented_assigning_inQuotes (hx : IsName x) (h : Quotable q s) :
    Uncommented ['#'] (assigning x (inQuotes q s)) := by
  have hbefore : Bare '#' (x ++ " = ".toList) := (bare_name hx).append (by decide)
  have hafter : Bare '#' [] := List.forall_mem_nil _
  have hline := uncommented_around h (by simp) hbefore hafter []
  simpa [assigning] using hline

theorem uncommented_calling_inQuotes (hf : IsName f) (h : Quotable q s) :
    Uncommented ['#'] (calling f (inQuotes q s)) := by
  have hbefore : Bare '#' (f ++ ['(']) := (bare_name hf).append (by decide)
  have hafter : Bare '#' [')'] := by decide
  have hline := uncommented_around h (by simp) hbefore hafter []
  simpa [calling] using hline

theorem uncommented_callOn_inQuotes {name : Text} (hxs : IsName xs) (hname : IsName name) (h : Quotable q s) :
    Uncommented ['#'] (callOn xs name (inQuotes q s)) := by
  have hbefore : Bare '#' (xs ++ ('.' :: name ++ ['('])) :=
    (bare_name hxs).append (Bare.append (Bare.append (s := ['.']) (by decide) (bare_name hname)) (by decide))
  have hafter : Bare '#' [')'] := by decide
  have hline := uncommented_around h (by simp) hbefore hafter []
  simpa [callOn] using hline

theorem execute_assigning_inQuotes (hmarker : config.marker = ['#']) (hm : m.pending = none) (hx : IsName x)
    (h : Quotable q s) (hline : '\n' ∉ s) :
    execute config (assigning x (inQuotes q s)) m = .ok (m.bind x (.text s)) := by
  have hparts : Shape.methodParts? (inQuotes q s) = none := by
    refine methodParts?_of_not_isNameStart ?_
    rw [← Bool.not_eq_true]
    exact fun hstart => Bool.false_ne_true ((not_isQuote_of_isNameStart hstart).symm.trans h.1)
  have hcomment : Uncommented config.marker (assigning x (inQuotes q s)) :=
    hmarker ▸ uncommented_assigning_inQuotes hx h
  rw [execute_assigning_token hx (trim_inQuotes h.1 s) (List.cons_ne_nil _ _) (feed_not_mem_inQuotes h hline) hparts
    hcomment, coerce_inQuotes h, closeDefinition_of_top hm]
  rfl

theorem execute_print_inQuotes (hmarker : config.marker = ['#']) (hm : m.pending = none) (h : Quotable q s)
    (hline : '\n' ∉ s) : execute config (calling "print".toList (inQuotes q s)) m = .ok (m.emit s) := by
  have hcomment : Uncommented config.marker (calling "print".toList (inQuotes q s)) :=
    hmarker ▸ uncommented_calling_inQuotes Shape.isName_print h
  rw [execute_print (feed_not_mem_inQuotes h hline) hcomment, closeDefinition_of_top hm, trim_inQuotes h.1,
    Print.text_inQuotes h]

theorem execute_calling_inQuotes (hmarker : config.marker = ['#']) (hm : m.pending = none) (hadmits : m.Admits config)
    (hf : IsName f) (hother : f ≠ "print".toList) (hfn : m.memory.function? f = some fn) (h : Quotable q s)
    (hline : '\n' ∉ s) : execute config (calling f (inQuotes q s)) m =
      (runBody (execute config) fn.body (m.enter fn [.text s])).map fun inner =>
        m.leave config.scope fn inner.closeDefinition := by
  have hcomment : Uncommented config.marker (calling f (inQuotes q s)) :=
    hmarker ▸ uncommented_calling_inQuotes hf h
  have hvalues : [inQuotes q s].mapM (coerce m.memory) = .ok [.text s] := by
    rw [List.mapM_cons, coerce_inQuotes h]
    rfl
  have hcall := call_of_values hadmits (List.forall_mem_singleton.mpr (separable_inQuotes h)) hvalues fn
  rw [joinWith_singleton] at hcall
  rw [execute_calling hf hother (feed_not_mem_inQuotes h hline) (by rwa [closeDefinition_of_top hm]) hcomment,
    closeDefinition_of_top hm, trim_inQuotes h.1, hcall]

theorem execute_append_inQuotes (hmarker : config.marker = ['#']) (hm : m.pending = none) (hxs : IsName xs)
    (hitems : m.memory.list? xs = some items) (h : Quotable q s) (hline : '\n' ∉ s) :
    execute config (callOn xs "append".toList (inQuotes q s)) m = .ok (m.bind xs (.list (items ++ [.text s]))) := by
  have hname : ListAction.ofName? "append".toList = some .append := rfl
  have hcomment : Uncommented config.marker (callOn xs "append".toList (inQuotes q s)) :=
    hmarker ▸ uncommented_callOn_inQuotes hxs (isName_of_ofName? hname) h
  have hfeed : '\n' ∉ callOn xs "append".toList (inQuotes q s) := by
    simp [callOn, feed_not_mem_name hxs, feed_not_mem_inQuotes h hline]
  have happend : ListAction.append.apply items (inQuotes q s) m.memory = .ok (items ++ [.text s]) := by
    have hfull : (inQuotes q s).isEmpty = false := rfl
    simp only [ListAction.apply, ListAction.appendTo, hfull, coerce_inQuotes h, Bool.false_eq_true, if_false]
    rfl
  rw [execute_callOn hm hxs hitems hname hfeed hcomment, trim_inQuotes h.1, happend]
  rfl

/-- A quoted text that has no line feed and none of its own quotes goes through unchanged wherever it may
stand: an assignment binds it, a print statement shows it, a call within the limits starts the body of a
function with its parameter bound to it, and an append adds it to a list. -/
theorem quoted_text_untouched {config : Config} (hmarker : config.marker = ['#']) {m : Machine}
    (hm : m.pending = none) {q : Char} {s : Text} (h : Quotable q s) (hline : '\n' ∉ s) :
    (∀ x, IsName x → execute config (assigning x (inQuotes q s)) m = .ok (m.bind x (.text s))) ∧
    execute config (calling "print".toList (inQuotes q s)) m = .ok (m.emit s) ∧
    (∀ f fn p, IsName f → f ≠ "print".toList → m.memory.function? f = some fn → fn.params = [p] →
      m.Admits config → ∃ start,
        Fields.get? start.memory p = some (.text s) ∧
        (∀ name, name ≠ p → Fields.get? start.memory name = Fields.get? m.memory name) ∧
        start = { memory := start.memory, output := m.output, depth := m.depth + 1, calls := m.calls + 1,
                  callFloor := m.floor } ∧
        execute config (calling f (inQuotes q s)) m =
          (runBody (execute config) fn.body start).map fun inner =>
            m.leave config.scope fn inner.closeDefinition) ∧
    ∀ xs items, IsName xs → m.memory.list? xs = some items →
      execute config (callOn xs "append".toList (inQuotes q s)) m =
        .ok (m.bind xs (.list (items ++ [.text s]))) := by
  refine ⟨?_, ?_, ?_, ?_⟩
  · exact fun x hx => execute_assigning_inQuotes hmarker hm hx h hline
  · exact execute_print_inQuotes hmarker hm h hline
  · intro f fn p hf hother hfn hparams hadmits
    have hpasses : Passes m.memory (m.enter fn [.text s]).memory [p] [.text s] := by
      rw [enter, hparams]
      exact passes_update m.memory (List.nodup_cons.mpr ⟨List.not_mem_nil, List.nodup_nil⟩) _
    refine ⟨m.enter fn [.text s], hpasses.bound 0 Nat.one_pos, ?_, rfl, ?_⟩
    · exact fun name hname => hpasses.kept name (by simpa using hname)
    · exact execute_calling_inQuotes hmarker hm hadmits hf hother hfn h hline
  · exact fun xs items hxs hitems => execute_append_inQuotes hmarker hm hxs hitems h hline

/-- A machine with a list, and with a function that shows its argument. -/
def showing : Machine where
  memory := [("xs".toList, .list [.bool true]),
    ("show".toList, .function ⟨"show".toList, ["a".toList], ["print(a)".toList]⟩)]

/-- A text that looks like a comment, an assignment, a sum, a quote and arguments, between blanks. -/
def disguised : Text := " # a = 1 + ', ([\x7b) ".toList

/-- In other quotes than the one that it holds the text is assigned, printed, passed and appended. -/
theorem quoted_text_untouched_disguised :
    Config.marker {} = ['#'] ∧ showing.pending = none ∧ Quotable '"' disguised ∧ '\n' ∉ disguised ∧
    execute {} (assigning "x".toList (inQuotes '"' disguised)) showing =
      .ok (showing.bind "x".toList (.text disguised)) ∧
    execute {} (calling "print".toList (inQuotes '"' disguised)) showing = .ok (showing.emit disguised) ∧
    (∃ start, Fields.get? start.memory "a".toList = some (.text disguised) ∧
      execute {} (calling "show".toList (inQuotes '"' disguised)) showing =
        (runBody (execute {}) ["print(a)".toList] start).map fun inner =>
          showing.leave .isolated ⟨"show".toList, ["a".toList], ["print(a)".toList]⟩ inner.closeDefinition) ∧
    execute {} (callOn "xs".toList "append".toList (inQuotes '"' disguised)) showing =
      .ok (showing.bind "xs".toList (.list [.bool true, .text disguised])) := by
  have hmarker : Config.marker {} = ['#'] := rfl
  have htop : showing.pending = none := rfl
  have hquotable : Quotable '"' disguised := by decide
  have hline : '\n' ∉ disguised := by decide
  have hx : IsName "x".toList := ⟨'x', [], by decide, by decide, List.forall_mem_nil _⟩
  have hshow : IsName "show".toList := ⟨'s', "how".toList, by decide, by decide, by decide +kernel⟩
  have hxs : IsName "xs".toList := ⟨'x', ['s'], by decide, by decide, by decide +kernel⟩
  obtain ⟨hassign, hprint, hcall, happend⟩ :=
    quoted_text_untouched hmarker htop hquotable hline
  obtain ⟨start, hparam, -, -, hbody⟩ :=
    hcall "show".toList ⟨_, _, ["print(a)".toList]⟩ "a".toList hshow (by decide) rfl rfl (by decide)
  exact ⟨hmarker, htop, hquotable, hline, hassign _ hx, hprint, ⟨start, hparam, hbody⟩,
    happend _ [.bool true] hxs (by decide)⟩

end SnippetTutor.Machine
