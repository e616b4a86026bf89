import SnippetTutor.Proofs.Machine.Functions
import SnippetTutor.Proofs.Statement.Normal

/-! # The bodies of functions

Lines come into a body in normal form, and functions are only passed on from there. A line
of a body is therefore run as it stands on every call. It is never stored once more, so
that a definition that is open inside a call stays without lines.
-/
namespace SnippetTutor
open Outcome

/-- Every line of the body is in the form in which lines are stored. -/
def Function.Normal (marker : Text) (f : Function) : Prop :=
  ∀ line ∈ f.body, Statement.Normal marker line

theorem Function.Normal.flush {marker : Text} {f : Function} (h : f.Normal marker) : f.Flush :=
  fun line hline => (h line hline).not_isIndented

namespace Machine

variable {config : Config} {caller : Caller} {marker line line' next : Text} {shape : Shape}
  {Q : Function → Prop} {m m' n k : Machine} {c : Invocation}

theorem stores_normal (marker line : Text) : Stores (Function.Normal marker) marker line := by
  intro text htext f hf next hnext
  rcases List.mem_append.mp hnext with hold | hnew
  · exact hf next hold
  · obtain ⟨hexecutable, -, rfl⟩ := Statement.ofLine_eq_bodyLine.mp htext
    rw [List.mem_singleton.mp hnew]
    exact Statement.normal_uncomment hexecutable

theorem Reachable.normal (h : Reachable config m) : m.HoldsOnly (Function.Normal config.marker) := by
  obtain ⟨lines, hlines⟩ := h
  have hinitial : initial.HoldsOnly (Function.Normal config.marker) := by
    intro f hf
    cases hf
  apply executeAll_keeps _ hinitial hlines
  intro line _ k k' hk hx
  apply hk.execute _ (fun _ hf => hf.flush) (stores_normal config.marker line) hx
  intro name params line hline
  cases hline

theorem execute_of_normal (h : Statement.Normal config.marker line) (m : Machine) :
    execute config line m = perform (call config) (Shape.ofText line) m.closeDefinition := by
  unfold execute executeWith
  rw [h.ofLine]
  rfl

section Pending

/-- No line has been stored in the definition that is open, if one is. -/
def Unfilled (m : Machine) : Prop := ∀ f, m.pending = some f → f.body = []

theorem closeDefinition_pending (m : Machine) : m.closeDefinition.pending = none := by
  unfold closeDefinition
  split
  · next hnone => exact hnone
  · rfl

theorem unfilled_closeDefinition (m : Machine) : m.closeDefinition.Unfilled := by
  intro f hf
  rw [closeDefinition_pending] at hf
  cases hf

/-- A line is performed as it reads without its blanks and its comment, and no definition is open then. -/
theorem performed?_eq_some (h : performed? marker line m = some (shape, n)) :
    isSkippable marker line = false ∧ shape = Shape.ofText (uncomment marker (Text.trim line)) ∧
      n.pending = none := by
  have hs : isSkippable marker line = false := by
    by_contra hskipped
    rw [Bool.not_eq_false] at hskipped
    rcases Statement.ofLine_of_skippable hskipped with hl | ⟨text, hl⟩ <;> simp [performed?, hl] at h
  refine ⟨hs, ?_⟩
  rw [performed?, Statement.ofLine_of_executable hs] at h
  cases hi : isIndented line with
  | true =>
    cases hc : m.isCollecting with
    | true => simp [hi, hc] at h
    | false =>
      simp only [hi, hc, if_true, Bool.false_eq_true, if_false, Option.some.injEq, Prod.mk.injEq] at h
      obtain ⟨rfl, rfl⟩ := h
      exact ⟨rfl, Option.not_isSome_iff_eq_none.mp (Bool.eq_false_iff.mp hc)⟩
  | false =>
    simp only [hi, Bool.false_eq_true, if_false, Statement.ofText, Option.some.injEq, Prod.mk.injEq] at h
    obtain ⟨rfl, rfl⟩ := h
    exact ⟨rfl, closeDefinition_pending m⟩

theorem call_pending {f : Function} {arguments : Text} (h : call config f arguments m = .ok n) :
    n.pending = m.pending := by
  cases he : m.exhausted with
  | true =>
    rw [call_of_exhausted he] at h
    cases h
    rfl
  | false =>
    by_cases ha : m.Admits config
    · rw [call_of_admits ha] at h
      obtain ⟨inner, -, rfl⟩ := map_eq_ok.mp h
      rfl
    · rw [call_of_refused he ha] at h
      cases h
      rfl

theorem perform_unfilled (hm : m.Unfilled) (h : perform (call config) shape m = .ok n) :
    n.Unfilled := by
  cases shape with
  | header name params =>
    cases h
    intro f hf
    cases hf
    rfl
  | assignment name expr =>
    rw [Unfilled, assign_frame h]
    exact hm
  | print argument =>
    cases h
    exact hm
  | method object name arguments =>
    rw [Unfilled, callMethod_frame h]
    exact hm
  | call name arguments =>
    simp only [perform] at h
    split at h
    · rw [Unfilled, call_pending h]
      exact hm
    · cases h
      exact hm
  | unrecognized =>
    cases h
    exact hm

/-- Only a header opens a definition. -/
theorem perform_pending (hm : m.pending = none) (hs : shape.kind ≠ .functionHeader)
    (h : perform (call config) shape m = .ok n) : n.pending = none := by
  cases shape with
  | header name params => exact absurd rfl hs
  | assignment name expr =>
    rw [assign_frame h]
    exact hm
  | print | unrecognized =>
    cases h
    exact hm
  | method object name arguments =>
    rw [callMethod_frame h]
    exact hm
  | call name arguments =>
    simp only [perform] at h
    split at h
    · rw [call_pending h]
      exact hm
    · cases h
      exact hm

end Pending

/-- What holds of all functions where a statement begins holds of them at every line of the
bodies that it runs. -/
theorem Runs.holdsOnly (hr : Runs config c next n) (hc : invocation? config.marker line m = some c)
    (h : m.HoldsOnly Q) (hempty : ∀ name params, Q ⟨name, params, []⟩)
    (hnormal : ∀ f, Q f → f.Normal config.marker) :
    n.HoldsOnly Q ∧ n.Unfilled ∧ Statement.Normal config.marker next := by
  obtain ⟨values, done, rest, hvalues, hbody, hrun⟩ := hr.started
  have hlines := hnormal _ (h.invocation hc).1
  rw [Function.Normal, hbody, List.forall_mem_append, List.forall_mem_cons] at hlines
  obtain ⟨hdone, hnext, -⟩ := hlines
  refine ⟨?_, ?_, hnext⟩
  · apply (h.entered hc hvalues).runBody _ hrun
    intro line hline k k' _ hk hx
    exact hk.execute hempty (fun _ hf => (hnormal _ hf).flush)
      (stores_of_not_isIndented (hdone line hline).not_isIndented) hx
  · have hentered : (c.caller.enter c.function values).Unfilled := fun _ hnone => by cases hnone
    apply runBody_keeps _ hentered hrun
    intro line hline k k' _ hx
    rw [execute_of_normal (hdone line hline)] at hx
    exact perform_unfilled (unfilled_closeDefinition k) hx

theorem Reached.holdsOnly (hreached : Reached config line m line' m') (h : m.HoldsOnly Q)
    (hempty : ∀ name params, Q ⟨name, params, []⟩) (hnormal : ∀ f, Q f → f.Normal config.marker) :
    m'.HoldsOnly Q ∧
      (line' = line ∧ m' = m ∨ m'.Unfilled ∧ Statement.Normal config.marker line') := by
  induction hreached with
  | here => exact ⟨h, Or.inl ⟨rfl, rfl⟩⟩
  | inside hc hr _ ih =>
    obtain ⟨hn, hunfilled, hnext⟩ := hr.holdsOnly hc h hempty hnormal
    obtain ⟨hm', hcases⟩ := ih hn
    refine ⟨hm', Or.inr ?_⟩
    rcases hcases with ⟨rfl, rfl⟩ | hinside
    · exact ⟨hunfilled, hnext⟩
    · exact hinside

/-- Every stored line is in normal form, and so it is run as it stands whenever it is run
again. At a line that runs inside a call, no definition has lines that were stored in it, and
no function is there but those from before the statement and functions without a body. -/
theorem stored_lines_normal {config : Config} {m : Machine} (h : Reachable config m) :
    (∀ f ∈ m.functions, ∀ line ∈ f.body, Statement.Normal config.marker line ∧
      ∀ k, execute config line k = perform (call config) (Shape.ofText line) k.closeDefinition) ∧
    (∀ line line' m' n', Reached config line m line' m' → 0 < m'.depth →
      execute config line' m' = .ok n' →
      (∀ f, m'.pending = some f → f.body = []) ∧ (∀ f, n'.pending = some f → f.body = []) ∧
      ∀ f ∈ n'.functions, f ∈ m.functions ∨ f.body = []) := by
  refine ⟨?_, ?_⟩
  · intro f hf line hline
    have hnormal := h.normal f hf line hline
    exact ⟨hnormal, execute_of_normal hnormal⟩
  · intro line line' m' n' hreached hinside hx
    have hempty : ∀ name params,
        Function.Normal config.marker ⟨name, params, []⟩ ∧
          ((⟨name, params, []⟩ : Function) ∈ m.functions ∨ (⟨name, params, []⟩ : Function).body = []) :=
      fun name params => ⟨fun _ hmem => absurd hmem List.not_mem_nil, Or.inr rfl⟩
    have hm : m.HoldsOnly fun f => f.Normal config.marker ∧ (f ∈ m.functions ∨ f.body = []) :=
      fun f hf => ⟨h.normal f hf, Or.inl hf⟩
    obtain ⟨hm', hcases⟩ := hreached.holdsOnly hm hempty (fun _ hf => hf.1)
    rcases hcases with ⟨-, rfl⟩ | ⟨hunfilled, hnormal⟩
    · rw [h.depth] at hinside
      exact absurd hinside (Int.lt_irrefl 0)
    · have hn' := hm'.execute hempty (fun _ hf => hf.1.flush)
        (stores_of_not_isIndented hnormal.not_isIndented) hx
      rw [execute_of_normal hnormal] at hx
      exact ⟨hunfilled, perform_unfilled (unfilled_closeDefinition m') hx, fun f hf => (hn' f hf).2⟩

/-- A function with a literal that holds the marker, and with a definition in its body. -/
def nested : Function :=
  ⟨"f".toList, [], ["print('a // b')".toList, "def g():".toList, "x = 1".toList]⟩

def nesting : Machine where
  memory := [("f".toList, .function nested), ("xs".toList, .list [.function nested])]

def slashed : Config := { marker := "//".toList }

theorem reachable_nesting : Reachable slashed nesting :=
  ⟨["def f():".toList, "  print('a // b')  // shown".toList, "  def g():// inner".toList,
    "    x = 1".toList, "xs = []".toList, "xs.append(f)".toList], eq_ok_of_toOption (by decide +kernel)⟩

/-- The line after the inner header is not stored: it completes a function without a body. -/
theorem stored_lines_normal_nesting :
    Statement.Normal "//".toList "print('a // b')".toList ∧
    ∃ m' n', Reached slashed "f()".toList nesting "x = 1".toList m' ∧ m'.depth = 1 ∧
      m'.pending = some ⟨"g".toList, [], []⟩ ∧ execute slashed "x = 1".toList m' = .ok n' ∧
      ⟨"g".toList, [], []⟩ ∈ n'.functions ∧ ∀ f ∈ n'.functions, f ∈ nesting.functions ∨ f.body = [] := by
  obtain ⟨hlines, hinside⟩ := stored_lines_normal reachable_nesting
  have hnested : nested ∈ nesting.functions := by decide
  refine ⟨(hlines nested hnested _ List.mem_cons_self).1, ?_⟩
  have hm' := Option.eq_some_of_isSome
    (o := (runBody (execute slashed) (nested.body.take 2) (nesting.enter nested [])).toOption) (by decide +kernel)
  have hn' := Option.eq_some_of_isSome
    (o := (execute slashed "x = 1".toList ((runBody (execute slashed) (nested.body.take 2)
      (nesting.enter nested [])).toOption.get (by decide +kernel))).toOption) (by decide +kernel)
  have hcall : invocation? slashed.marker "f()".toList nesting = some ⟨nested, [], nesting⟩ := by
    refine invocation?_eq_some.mpr ⟨.call "f".toList [], nesting, by decide +kernel, ?_⟩
    exact shapeCall?_eq_some.mpr ⟨"f".toList, rfl, by decide +kernel, rfl⟩
  have hruns : Runs slashed ⟨nested, [], nesting⟩ "x = 1".toList _ :=
    ⟨⟨rfl, by decide, by decide⟩, ⟨[], nested.body.take 2, [], rfl, rfl, eq_ok_of_toOption hm'⟩,
      by decide +kernel⟩
  have hreached := Reached.inside hcall hruns .here
  obtain ⟨-, -, hfunctions⟩ := hinside _ _ _ _ hreached (by decide +kernel) (eq_ok_of_toOption hn')
  exact ⟨_, _, hreached, by decide +kernel, by decide +kernel, eq_ok_of_toOption hn',
    by decide +kernel, hfunctions⟩

end Machine

end SnippetTutor
