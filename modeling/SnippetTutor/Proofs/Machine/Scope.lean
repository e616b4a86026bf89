import SnippetTutor.Proofs.Machine.Reached

/-! # What a call leaves to its caller

No statement drops a name or moves it, so that a body ends with every name of the caller
in its place. Of what the body has made of them the caller takes over values for names
that it has, and never a new name.
-/
namespace SnippetTutor.Machine
open Outcome

variable {config : Config} {policy : ScopePolicy} {outer inner : Memory} {params : List Text}
  {name : Text} {f : Function} {arguments : Text} {m n : Machine}

theorem keys_mergeScope (policy : ScopePolicy) (outer inner : Memory) (params : List Text) :
    Fields.keys (mergeScope policy outer inner params) = Fields.keys outer := by
  cases policy with
  | isolated => rfl
  | writeBack =>
    unfold mergeScope Fields.keys
    rw [List.map_map]
    apply List.map_congr_left
    intro field _
    simp only [Function.comp_apply]
    split <;> rfl

/-- A name of the caller keeps its value if it is a parameter, and otherwise has the value
that it has inside. -/
theorem get?_mergeScope (houter : name ∈ Fields.keys outer) (hinner : name ∈ Fields.keys inner) :
    Fields.get? (mergeScope .writeBack outer inner params) name =
      if name ∈ params then Fields.get? outer name else Fields.get? inner name := by
  rw [← Fields.get?_isSome_iff] at houter hinner
  obtain ⟨value, hvalue⟩ := Option.isSome_iff_exists.mp hinner
  induction outer with
  | nil => cases houter
  | cons field rest ih =>
    obtain ⟨key, old⟩ := field
    rw [Fields.get?_cons] at houter
    by_cases hkey : key = name
    · subst hkey
      by_cases hparam : key ∈ params
      · simp [mergeScope, Fields.get?_cons, hparam]
      · simp [mergeScope, Fields.get?_cons, hparam, hvalue]
    · rw [if_neg hkey] at houter
      have hrest := ih houter
      by_cases hparam : key ∈ params
      · simpa [mergeScope, Fields.get?_cons, hparam, hkey] using hrest
      · simpa [mergeScope, Fields.get?_cons, hparam, hkey] using hrest

/-- Statements drop no name and keep the names in their order. -/
theorem respected_names (policy : ScopePolicy) :
    Respected policy fun m n => Fields.keys m.memory <+: Fields.keys n.memory where
  refl _ := List.prefix_rfl
  trans hab hbc := hab.trans hbc
  header _ _ _ := List.prefix_rfl
  emit _ _ := List.prefix_rfl
  bind m name value := Fields.keys_prefix_assign m.memory name value
  collect _ _ := List.prefix_rfl
  close m := by
    unfold closeDefinition
    split
    · exact List.prefix_rfl
    · exact Fields.keys_prefix_assign m.memory _ _
  abandon _ := List.prefix_rfl
  leave {m f values inner} _ := by
    simp only [leave, keys_mergeScope]
    exact List.prefix_rfl

theorem bodyEnd_names (h : bodyEnd config f arguments m = .ok n) :
    Fields.keys m.memory <+: Fields.keys n.memory := by
  obtain ⟨values, -, h⟩ := bind_eq_ok.mp h
  obtain ⟨last, hrun, h⟩ := bind_eq_ok.mp h
  cases h
  have hnames := respected_names config.scope
  have hentered := Fields.keys_prefix_update m.memory (paramBindings f.params values)
  have hbody := hnames.runBody (fun _ _ _ hx => hnames.execute hx) hrun
  exact hentered.trans (hbody.trans (hnames.close last))

/-- What a call leaves to its caller, at any depth and also if a limit has ended the body
half way: the names that the caller had, and of what the body has made of them nothing or
the new values of all but the parameters. -/
theorem call_respects_scope {config : Config} {f : Function} {arguments : Text} {m n : Machine}
    (h : call config f arguments m = .ok n) :
    Fields.keys n.memory = Fields.keys m.memory ∧
    (m.Admits config → ∃ inner, bodyEnd config f arguments m = .ok inner ∧
      Fields.keys m.memory <+: Fields.keys inner.memory ∧
      (config.scope = .isolated → n.memory = m.memory) ∧
      (config.scope = .writeBack → ∀ name ∈ Fields.keys m.memory,
        Fields.get? n.memory name =
          if name ∈ f.params then Fields.get? m.memory name
          else Fields.get? inner.memory name)) := by
  by_cases ha : m.Admits config
  · rw [call_of_admits ha] at h
    obtain ⟨inner, hend, rfl⟩ := map_eq_ok.mp h
    have hnames := bodyEnd_names hend
    refine ⟨keys_mergeScope _ _ _ _, fun _ => ⟨inner, hend, hnames, ?_, ?_⟩⟩
    · intro hscope
      simp only [leave, hscope, mergeScope]
    · intro hscope name hname
      simp only [leave, hscope]
      exact get?_mergeScope hname (hnames.subset hname)
  · refine ⟨?_, fun hadmits => absurd hadmits ha⟩
    cases he : m.exhausted with
    | true =>
      rw [call_of_exhausted he] at h
      cases h
      rfl
    | false =>
      rw [call_of_refused he ha] at h
      cases h
      rfl

/-- A function that changes a variable of its caller, sets one of its own and calls itself. -/
def spiral : Function :=
  ⟨"f".toList, ["x".toList], ["y = x".toList, "z = 1".toList, "f(x)".toList]⟩

def spiralling : Machine where
  memory := [("y".toList, .undefined), ("f".toList, .function spiral)]

def shallow : Config := { scope := .writeBack, maxDepth := 2 }

/-- The depth limit ends both calls half way. The caller has the new value of its variable,
and neither the parameter nor the variable of the function. -/
theorem call_respects_scope_spiral :
    ∃ n inner, call shallow spiral "'a'".toList spiralling = .ok n ∧
      bodyEnd shallow spiral "'a'".toList spiralling = .ok inner ∧ inner.exhausted = true ∧
      Fields.keys inner.memory = ["y".toList, "f".toList, "x".toList, "z".toList] ∧
      Fields.keys n.memory = ["y".toList, "f".toList] ∧
      Fields.get? n.memory "y".toList = Fields.get? inner.memory "y".toList := by
  have hn := Option.eq_some_of_isSome
    (o := (call shallow spiral "'a'".toList spiralling).toOption) (by decide +kernel)
  have hinner := Option.eq_some_of_isSome
    (o := (bodyEnd shallow spiral "'a'".toList spiralling).toOption) (by decide +kernel)
  have hcall := eq_ok_of_toOption hn
  have hend := eq_ok_of_toOption hinner
  obtain ⟨hkeys, hscope⟩ := call_respects_scope hcall
  obtain ⟨inner, hsame, -, -, hvalues⟩ := hscope ⟨rfl, by decide, by decide⟩
  have heq := Except.ok.inj (hend.symm.trans hsame)
  refine ⟨_, inner, hcall, hsame, ?_, ?_, hkeys, hvalues rfl "y".toList (by decide)⟩
  · rw [← heq]
    decide +kernel
  · rw [← heq]
    decide +kernel

end SnippetTutor.Machine
