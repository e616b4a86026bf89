import SnippetTutor.Proofs.Arguments.Cuts
import SnippetTutor.Proofs.Machine.ListCall
import SnippetTutor.Proofs.Machine.Scope
import SnippetTutor.Proofs.Outcome.Pointwise

/-! # Parameters and arguments

The parameters of a header may be annotated and have defaults, of which nothing is kept. A call passes
its arguments in their order: what is left over of the parameters is undefined, and what is left over
of the arguments is dropped. But all arguments are resolved before that, so that an argument that is
dropped can still make the call fail.
That arguments have values is said for a stack without bounds (`Fault`).
-/
namespace SnippetTutor

namespace Fields
variable {α : Type} {fields new : Fields α} {key : Text} {value : α}

theorem get?_update_of_not_mem (h : key ∉ keys new) : get? (update fields new) key = get? fields key := by
  induction new generalizing fields with
  | nil => rfl
  | cons field rest ih =>
    obtain ⟨hkey, hrest⟩ := not_or.mp (mt List.mem_cons.mpr h)
    exact (ih hrest).trans (get?_assign_of_ne fields field.2 hkey)

/-- Among different names no assignment undoes another one. -/
theorem get?_update_of_mem (hnodup : (keys new).Nodup) (h : (key, value) ∈ new) :
    get? (update fields new) key = some value := by
  induction new generalizing fields with
  | nil => cases h
  | cons field rest ih =>
    obtain ⟨hfirst, hrest⟩ := List.nodup_cons.mp hnodup
    rcases List.mem_cons.mp h with rfl | h
    · exact (get?_update_of_not_mem hfirst).trans (get?_assign_self fields key value)
    · exact ih hrest h

end Fields

namespace Arguments
open Text
variable {name part : Text} {names parts args : List Text}

/-- What a parameter can be called: a trimmed text that no mark ends early. Every name is one. -/
def Unmarked (name : Text) : Prop := name ≠ [] ∧ trim name = name ∧ ∀ c ∈ name, c ≠ '=' ∧ c ≠ ':'

instance (name : Text) : Decidable (Unmarked name) := inferInstanceAs (Decidable (_ ∧ _ ∧ _))

theorem unmarked_of_isName (h : IsName name) : Unmarked name := by
  refine ⟨ne_nil_of_isName h, trim_name h, ?_⟩
  · have hnone : ∀ d, isNameStart d = false → isWordChar d = false → ∀ c ∈ name, c ≠ d := by
      rintro d hstart hword c hc rfl
      exact not_mem_of_isName hstart hword h hc
    exact fun c hc => ⟨hnone '=' (by decide) (by decide +kernel) c hc, hnone ':' (by decide) (by decide +kernel) c hc⟩

/-- A parameter is written as its name, with an annotation or a default behind it or neither. -/
def Declares (name part : Text) : Prop :=
  Unmarked name ∧ (part = name ∨
    ∃ gap mark rest, Blanks gap ∧ (mark = ':' ∨ mark = '=') ∧ part = name ++ (gap ++ mark :: rest))

theorem Declares.visible (h : Declares name part) : ∃ c ∈ part, isBlank c = false := by
  obtain ⟨⟨hne, htrim, -⟩, hpart⟩ := h
  have hvisible : ¬ Blanks name := by
    rw [← trim_eq_nil_iff, htrim]
    exact hne
  obtain ⟨c, hc, hblank⟩ := not_forall₂.mp hvisible
  refine ⟨c, ?_, Bool.not_eq_true _ ▸ hblank⟩
  rcases hpart with rfl | ⟨gap, mark, rest, -, -, rfl⟩
  · exact hc
  · exact List.mem_append_left _ hc

/-- No blank ends the name of a parameter. -/
theorem takeWhile_of_blanks {t : Text} (h : Blanks t) : t.takeWhile (fun c => c ≠ '=' ∧ c ≠ ':') = t := by
  refine List.takeWhile_eq_self_iff.mpr fun c hc => ?_
  have hmark : ∀ d, isBlank d = false → c ≠ d := fun d hd => ne_of_class (h c hc) hd
  simp [hmark '=' (by decide), hmark ':' (by decide)]

/-- The blanks around a written parameter are no part of its name. -/
theorem paramName_trim (part : Text) : paramName (trim part) = paramName part := by
  obtain ⟨left, right, hleft, hright, hpart⟩ := exists_trim part
  have hkept : trim ((trim part ++ right).takeWhile fun c => c ≠ '=' ∧ c ≠ ':') = paramName (trim part) := by
    rw [List.takeWhile_append, takeWhile_of_blanks hright]
    split
    · next hlength =>
      have hall := (List.takeWhile_prefix fun c => c ≠ '=' ∧ c ≠ ':').eq_of_length hlength
      rw [trim_append_blanks hright, paramName, hall]
    · rfl
  calc paramName (trim part) = trim ((trim part ++ right).takeWhile fun c => c ≠ '=' ∧ c ≠ ':') := hkept.symm
    _ = trim (left ++ (trim part ++ right).takeWhile fun c => c ≠ '=' ∧ c ≠ ':') := by
      simpa using (trim_blanks hleft blanks_nil _).symm
    _ = paramName part := by
      rw [← List.takeWhile_append_of_pos (List.takeWhile_eq_self_iff.mp (takeWhile_of_blanks hleft)), ← hpart, paramName]

theorem Declares.paramName_eq (h : Declares name part) : paramName part = name := by
  obtain ⟨⟨-, htrim, hmarks⟩, hpart⟩ := h
  have hname : ∀ c ∈ name, decide (c ≠ '=' ∧ c ≠ ':') = true := fun c hc => decide_eq_true (hmarks c hc)
  rcases hpart with rfl | ⟨gap, mark, rest, hgap, hmark, rfl⟩
  · rw [paramName, List.takeWhile_eq_self_iff.mpr hname, htrim]
  · have hstop : (mark :: rest).takeWhile (fun c => c ≠ '=' ∧ c ≠ ':') = [] := by
      rcases hmark with rfl | rfl <;> rfl
    rw [paramName, List.takeWhile_append_of_pos hname,
      List.takeWhile_append_of_pos (List.takeWhile_eq_self_iff.mp (takeWhile_of_blanks hgap)), hstop, List.append_nil,
      trim_append_blanks hgap, htrim]

theorem not_blanks_joinWith_declares {rest : List Text} (h : Declares name part) :
    ¬ Blanks (joinWith ", ".toList (part :: rest)) := by
  obtain ⟨c, hc, hvisible⟩ := h.visible
  intro hblanks
  refine Bool.false_ne_true (hvisible.symm.trans (hblanks c ?_))
  cases rest with
  | nil => rwa [joinWith_singleton]
  | cons next more =>
    rw [joinWith_cons_cons]
    exact List.mem_append_left _ hc

theorem unmarked_of_declares (h : List.Forall₂ Declares names parts) : ∀ name ∈ names, Unmarked name := by
  induction h with
  | nil => exact List.forall_mem_nil _
  | cons hfirst _ ih => exact List.forall_mem_cons.mpr ⟨hfirst.1, ih⟩

/-- Of what is written in a header the names of the parameters are kept. -/
theorem params_joinWith (hdeclares : List.Forall₂ Declares names parts) (h : ∀ p ∈ parts, Uncut p ∧ Closed p) :
    params (joinWith ", ".toList parts) = names := by
  cases parts with
  | nil =>
    cases hdeclares
    rfl
  | cons part rest =>
    have hblanks : ¬ Blanks (joinWith ", ".toList (part :: rest)) := by
      cases hdeclares with
      | cons hfirst _ => exact not_blanks_joinWith_declares hfirst
    have hsame : List.Forall₂ (fun name p => name = paramName p) names (part :: rest) :=
      hdeclares.imp fun _ _ hname => hname.paramName_eq.symm
    have hnames : names = (part :: rest).map paramName :=
      List.forall₂_eq_eq_eq ▸ List.forall₂_map_right_iff.mpr hsame
    have hfull : ∀ name ∈ names, (!name.isEmpty) = true := by
      intro name hname
      simp [(unmarked_of_declares hdeclares name hname).1]
    have htrim : ((part :: rest).map trim).map paramName = (part :: rest).map paramName := by
      rw [List.map_map]
      exact List.map_congr_left fun p _ => paramName_trim p
    rw [params, split_joinWith_map hblanks h, htrim, ← hnames, List.filter_eq_self.mpr hfull]

theorem params_trim (t : Text) : params (trim t) = params t := by rw [params, params, split_trim]

/-- What can be an argument among others. -/
def Separable (a : Text) : Prop := a ≠ [] ∧ trim a = a ∧ Uncut a ∧ Closed a

instance (a : Text) : Decidable (Separable a) := inferInstanceAs (Decidable (_ ∧ _ ∧ _ ∧ _))

theorem split_separable (h : ∀ a ∈ args, Separable a) : split (joinWith ", ".toList args) = args := by
  refine split_joinWith ?_ fun a ha => (h a ha).2
  rintro rfl
  exact (h [] List.mem_cons_self).1 rfl

end Arguments

namespace Machine
open Arguments Outcome Shape Statement Text
variable {config : Config} {m : Machine} {f : Text} {names parts args : List Text} {values : List Value}

/-- The header of a definition, as it is written. -/
def headerText (f : Text) (parts : List Text) : Text :=
  "def ".toList ++ (f ++ '(' :: (joinWith ", ".toList parts ++ "):".toList))

theorem decomposes_headerText (hf : IsName f) (parts : List Text) :
    Decomposes (headerText f parts) (.header f (joinWith ", ".toList parts)) := by
  have hcall : Encloses (joinWith ", ".toList parts) ('(' :: (joinWith ", ".toList parts ++ [')'])) :=
    ⟨[], [], blanks_nil, blanks_nil, rfl⟩
  have hgap : Blanks [' '] := by decide
  refine .header (List.cons_ne_nil _ _) hgap hf hcall blanks_nil ?_
  simp [headerText]

theorem ofText_headerText (hf : IsName f) (h : ∀ part ∈ parts, '\n' ∉ part) :
    Shape.ofText (headerText f parts) = .header f (trim (joinWith ", ".toList parts)) := by
  have hline : '\n' ∉ headerText f parts := by
    have hname : '\n' ∉ f := not_mem_of_isName (by decide) (by decide) hf
    have hparts : '\n' ∉ joinWith ", ".toList parts := by
      intro hmem
      rcases mem_joinWith hmem with hseparator | ⟨part, hpart, hc⟩
      · exact absurd hseparator (by decide)
      · exact h part hpart hc
    simp only [headerText, List.mem_append, List.mem_cons, not_or]
    exact ⟨by decide, hname, by decide, hparts, by decide⟩
  exact ofText_of_first hline (decomposes_headerText hf parts) fun _ _ => Nat.zero_le _

theorem trim_headerText (f : Text) (parts : List Text) : trim (headerText f parts) = headerText f parts := by
  have hlast : (headerText f parts).getLast? = some ':' := by
    have hend : headerText f parts = "def ".toList ++ (f ++ '(' :: (joinWith ", ".toList parts ++ [')'])) ++ [':'] := by
      simp [headerText]
    rw [hend, List.getLast?_concat]
  exact trim_of_ends (c := 'd') rfl (by decide) hlast (by decide)

/-- A header that is run opens the definition with the names of its parameters. -/
theorem execute_headerText (hf : IsName f) (hdeclares : List.Forall₂ Declares names parts)
    (hparts : ∀ part ∈ parts, '\n' ∉ part ∧ Uncut part ∧ Closed part)
    (h : Uncommented config.marker (headerText f parts)) :
    execute config (headerText f parts) m = .ok { m.closeDefinition with pending := some ⟨f, names, []⟩ } := by
  have hshape := ofText_headerText hf fun part hpart => (hparts part hpart).1
  have hparams := params_joinWith hdeclares fun part hpart => (hparts part hpart).2
  unfold execute executeWith
  rw [ofLine_of_uncommented (trim_headerText f parts) (by simp [headerText]) h]
  simp only [Statement.ofText, hshape, perform, params_trim, hparams]

/-- What a body finds in its memory: every parameter with its argument, or undefined if there is none
for it, and all other names with the values of the caller. -/
structure Passes (outer inner : Memory) (names : List Text) (values : List Value) : Prop where
  bound : ∀ i (h : i < names.length), Fields.get? inner names[i] = some (values[i]?.getD .undefined)
  kept : ∀ name, name ∉ names → Fields.get? inner name = Fields.get? outer name

theorem keys_paramBindings (names : List Text) (values : List Value) :
    Fields.keys (paramBindings names values) = names := by
  induction names generalizing values with
  | nil => rfl
  | cons name rest ih => cases values <;> exact congrArg (name :: ·) (ih _)

theorem mem_paramBindings (values : List Value) {i : Nat} (h : i < names.length) :
    (names[i], values[i]?.getD .undefined) ∈ paramBindings names values := by
  induction names generalizing values i with
  | nil => cases h
  | cons name rest ih =>
    cases i with
    | zero => cases values <;> exact List.mem_cons_self
    | succ i =>
      have hrest : i < rest.length := Nat.lt_of_succ_lt_succ h
      cases values with
      | nil => exact List.mem_cons_of_mem _ (by simpa using ih [] hrest)
      | cons value values => exact List.mem_cons_of_mem _ (by simpa using ih values hrest)

/-- Values without a parameter are not bound to anything. -/
theorem paramBindings_take (names : List Text) (values : List Value) :
    paramBindings names (values.take names.length) = paramBindings names values := by
  induction names generalizing values with
  | nil => rfl
  | cons name rest ih =>
    cases values with
    | nil => rfl
    | cons value values => exact congrArg ((name, value) :: ·) (ih values)

theorem passes_update (outer : Memory) (hdistinct : names.Nodup) (values : List Value) :
    Passes outer (Fields.update outer (paramBindings names values)) names values where
  bound i h := by
    refine Fields.get?_update_of_mem ?_ (mem_paramBindings values h)
    rwa [keys_paramBindings]
  kept name h := by
    refine Fields.get?_update_of_not_mem ?_
    rwa [keys_paramBindings]

theorem enter_take (m : Machine) (f : Function) (values : List Value) :
    m.enter f (values.take f.params.length) = m.enter f values := by
  rw [enter, paramBindings_take, enter]

theorem call_of_faulty (hm : m.Admits config) (hargs : ∀ a ∈ args, Separable a) (h : ∃ a ∈ args, Literal.Faulty a)
    (f : Function) : call config f (joinWith ", ".toList args) m = .error .numberTooLarge := by
  obtain ⟨a, ha, hfaulty⟩ := h
  have hvalues : args.mapM (Literal.coerce m.memory) = .error .numberTooLarge :=
    mapM_eq_error.mpr ⟨a, ha, Literal.coerce_eq_error.mpr hfaulty⟩
  rw [call_of_admits hm, map_eq_error, bodyEnd, split_separable hargs, hvalues]
  rfl

theorem call_of_values (hm : m.Admits config) (hargs : ∀ a ∈ args, Separable a)
    (hvalues : args.mapM (Literal.coerce m.memory) = .ok values) (f : Function) :
    call config f (joinWith ", ".toList args) m =
      (runBody (execute config) f.body (m.enter f values)).map fun inner =>
        m.leave config.scope f inner.closeDefinition := by
  have hend : bodyEnd config f (joinWith ", ".toList args) m =
      runBody (execute config) f.body (m.enter f values) >>= fun inner => .ok inner.closeDefinition := by
    rw [bodyEnd, split_separable hargs, hvalues]
    rfl
  rw [call_of_admits hm, hend]
  cases runBody (execute config) f.body (m.enter f values) <;> rfl

/-- The header of a definition is read as such and keeps the names of the parameters, whatever is
written behind them. A call within the limits resolves all its arguments in the memory of the caller,
and it fails if one of them cannot be resolved, also one beyond the parameters. Otherwise the body
starts with the parameters bound to the arguments in order, or undefined where there are no more of
them; other names are as the caller has them, and arguments beyond the parameters change nothing. -/
theorem arguments_passed_in_order {f : Text} (hf : IsName f) {names parts : List Text} (hdistinct : names.Nodup)
    (hdeclares : List.Forall₂ Declares names parts)
    (hparts : ∀ part ∈ parts, '\n' ∉ part ∧ Uncut part ∧ Closed part) :
    (∃ written, Shape.ofText (headerText f parts) = .header f written ∧ params written = names) ∧
    (∀ (config : Config) (m : Machine), Uncommented config.marker (headerText f parts) →
      execute config (headerText f parts) m = .ok { m.closeDefinition with pending := some ⟨f, names, []⟩ }) ∧
    ∀ (config : Config) (m : Machine) (args : List Text), m.Admits config → (∀ a ∈ args, Separable a) →
      ((∃ a ∈ args, Literal.Faulty a) ∧
        ∀ body, call config ⟨f, names, body⟩ (joinWith ", ".toList args) m = .error .numberTooLarge) ∨
      ((∀ a ∈ args, ¬ Literal.Faulty a) ∧ ∃ values start,
        List.Forall₂ (fun value a => Literal.coerce m.memory a = .ok value) values args ∧
        Passes m.memory start.memory names values ∧
        start = { memory := start.memory, output := m.output, depth := m.depth + 1, calls := m.calls + 1,
                  callFloor := m.floor } ∧
        ∀ body, call config ⟨f, names, body⟩ (joinWith ", ".toList args) m =
            (runBody (execute config) body start).map (fun inner =>
              m.leave config.scope ⟨f, names, body⟩ inner.closeDefinition) ∧
          call config ⟨f, names, body⟩ (joinWith ", ".toList (args.take names.length)) m =
            call config ⟨f, names, body⟩ (joinWith ", ".toList args) m) := by
  refine ⟨⟨_, ofText_headerText hf fun part hpart => (hparts part hpart).1, ?_⟩, ?_, ?_⟩
  · rw [params_trim, params_joinWith hdeclares fun part hpart => (hparts part hpart).2]
  · exact fun config m h => execute_headerText hf hdeclares hparts h
  intro config m args hm hargs
  by_cases hfaulty : ∃ a ∈ args, Literal.Faulty a
  · exact Or.inl ⟨hfaulty, fun body => call_of_faulty hm hargs hfaulty _⟩
  have hsound : ∀ a ∈ args, ¬ Literal.Faulty a := fun a ha h => hfaulty ⟨a, ha, h⟩
  have hresolved : ∀ a ∈ args, ∃ value, Literal.coerce m.memory a = .ok value := by
    intro a ha
    rw [exists_ok_iff .numberTooLarge, Literal.coerce_eq_error]
    exact hsound a ha
  obtain ⟨values, hvalues⟩ := exists_mapM_iff.mpr hresolved
  have hcall := call_of_values hm hargs hvalues
  have htake := call_of_values hm (fun a ha => hargs a (List.mem_of_mem_take ha)) (mapM_take hvalues names.length)
  refine Or.inr ⟨hsound, values, m.enter ⟨f, names, []⟩ values, forall₂_of_mapM hvalues,
    passes_update m.memory hdistinct values, rfl, fun body => ⟨hcall ⟨f, names, body⟩, ?_⟩⟩
  rw [htake ⟨f, names, body⟩, hcall ⟨f, names, body⟩, enter_take m ⟨f, names, body⟩ values]

/-- A machine that has a number, which a parameter of the function hides. -/
def lending : Machine := { memory := [("b".toList, .number .one)] }

/-- An annotation that holds a comma, a default that is one, and fewer arguments than parameters. The
argument is the variable that has the name of the second parameter. -/
theorem arguments_passed_in_order_annotated :
    (∃ written, Shape.ofText (headerText "f".toList ["a: dict[str, int]".toList, "b = ','".toList]) =
      .header "f".toList written ∧ params written = ["a".toList, "b".toList]) ∧
    ∀ body, ∃ start,
      Fields.get? start.memory "a".toList = some (.number .one) ∧
      Fields.get? start.memory "b".toList = some .undefined ∧
      call {} ⟨"f".toList, ["a".toList, "b".toList], body⟩ "b".toList lending =
        (runBody (execute {}) body start).map fun inner =>
          lending.leave .isolated ⟨"f".toList, ["a".toList, "b".toList], body⟩ inner.closeDefinition := by
  have hf : IsName "f".toList := ⟨'f', [], by decide +kernel, by decide, by decide +kernel⟩
  have hname : ∀ c, isNameStart c = true → Unmarked [c] :=
    fun c hc => unmarked_of_isName ⟨c, [], rfl, hc, List.forall_mem_nil _⟩
  have hdeclares : List.Forall₂ Declares ["a".toList, "b".toList] ["a: dict[str, int]".toList, "b = ','".toList] :=
    .cons ⟨hname 'a' (by decide), Or.inr ⟨[], ':', " dict[str, int]".toList, by decide, Or.inl rfl, by decide +kernel⟩⟩
      (.cons ⟨hname 'b' (by decide), Or.inr ⟨[' '], '=', " ','".toList, by decide, Or.inr rfl, by decide +kernel⟩⟩ .nil)
  obtain ⟨hheader, -, hcall⟩ := arguments_passed_in_order hf (by decide +kernel) hdeclares (by decide +kernel)
  refine ⟨hheader, fun body => ?_⟩
  have hadmits : lending.Admits {} := by decide +kernel
  have hargs : ∀ a ∈ ["b".toList], Separable a := by decide +kernel
  rcases hcall {} lending ["b".toList] hadmits hargs with ⟨⟨a, ha, hfaulty⟩, -⟩ | ⟨-, values, start, hvalues, hpasses, -, hbody⟩
  · obtain rfl := List.mem_singleton.mp ha
    exact absurd hfaulty.1 (by decide +kernel)
  · cases hvalues with
    | @cons value _ values _ hvalue hrest =>
      cases hrest
      have hone : Literal.coerce lending.memory "b".toList = .ok (.number .one) :=
        eq_ok_of_toOption (by decide +kernel)
      obtain rfl : value = .number .one := Except.ok.inj (hvalue.symm.trans hone)
      exact ⟨start, hpasses.bound 0 (by decide), hpasses.bound 1 (by decide), (hbody body).1⟩

/-- A list with a whole number that is too large. -/
def oversized : Text := "[1".toList ++ List.replicate 309 '0' ++ [']']

/-- The function has no parameters, so that nothing is bound to the argument. It makes the call fail
nevertheless, and without it the call goes through. -/
theorem extra_argument_fails_call :
    Shape.ofText (headerText "f".toList []) = .header "f".toList [] ∧ params [] = [] ∧
    Machine.initial.Admits {} ∧ Separable oversized ∧
    call {} ⟨"f".toList, [], ["print(1)".toList]⟩ (joinWith ", ".toList [oversized]) .initial =
      .error .numberTooLarge ∧
    ∃ n, call {} ⟨"f".toList, [], ["print(1)".toList]⟩ (joinWith ", ".toList []) .initial = .ok n ∧
      n.output = ["1".toList] := by
  have hn := Option.eq_some_of_isSome
    (o := (call {} ⟨"f".toList, [], ["print(1)".toList]⟩ (joinWith ", ".toList []) .initial).toOption)
    (by decide +kernel)
  exact ⟨by decide +kernel, rfl, by decide +kernel, by decide +kernel,
    eq_error_of_toOption (by decide +kernel) _, _, eq_ok_of_toOption hn, by decide +kernel⟩

end Machine

end SnippetTutor
