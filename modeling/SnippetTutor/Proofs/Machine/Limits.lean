import SnippetTutor.Proofs.Machine.Refusal

/-! # Raising the limits

The limits enter into a statement only where a call is refused. With higher limits a
statement therefore does the same up to the first refusal, and where the lower limits
give up the call the higher ones may let it print more.
-/
namespace SnippetTutor
open Outcome

/-- Two configurations that differ at most in their limits, the second having the higher
ones. -/
structure Config.Raised (low high : Config) : Prop where
  scope : high.scope = low.scope
  marker : high.marker = low.marker
  verbose : high.verbose = low.verbose
  depth : low.maxDepth ≤ high.maxDepth
  calls : low.maxCalls ≤ high.maxCalls

namespace Machine
variable {low high : Config} {line line' : Text} {m m' n n' : Machine} {c : Invocation}

theorem Admits.raise (hlimits : low.Raised high) (h : m.Admits low) : m.Admits high :=
  ⟨h.1, Int.lt_of_lt_of_le h.2.1 hlimits.calls, Int.lt_of_lt_of_le h.2.2 hlimits.depth⟩

theorem bodyEnd_congr (h : c.caller.Admits low)
    (hlines : ∀ next n, Runs low c next n → execute high next n = execute low next n) :
    bodyEnd high c.function c.arguments c.caller = bodyEnd low c.function c.arguments c.caller := by
  unfold bodyEnd
  cases hvalues : (Arguments.split c.arguments).mapM (Literal.coerce c.caller.memory) with
  | error fault => rfl
  | ok values =>
    have hrun : runBody (execute low) c.function.body (c.caller.enter c.function values) =
        runBody (execute high) c.function.body (c.caller.enter c.function values) := by
      rw [runBody_eq_foldlM rfl, runBody_eq_foldlM rfl]
      apply foldlM_congr
      intro done next rest n hbody hdone
      unfold resume
      split
      · rfl
      · next hn =>
        rw [← runBody_eq_foldlM rfl] at hdone
        exact (hlines next n ⟨h, ⟨values, done, rest, hvalues, hbody, hdone⟩, by simpa using hn⟩).symm
    simp only [Bind.bind, Except.bind, hrun]

/-- A statement in which no call is refused does the same under higher limits. -/
theorem execute_raise (hlimits : low.Raised high)
    (h : ∀ line' m', Reached low line m line' m' → ¬ Refused low line' m') :
    execute high line m = execute low line m := by
  induction m using depth_induction low generalizing line with
  | step m ih =>
    cases hc : invocation? low.marker line m with
    | none =>
      rw [execute, execute, hlimits.marker]
      exact executeWith_of_no_invocation hc
    | some c =>
      have hc' : invocation? high.marker line m = some c := by rw [hlimits.marker, hc]
      rw [execute_of_invocation hc, execute_of_invocation hc']
      cases he : c.caller.exhausted with
      | true => rw [call_of_exhausted he, call_of_exhausted he]
      | false =>
        have hadmits : c.caller.Admits low := by
          by_cases ha : c.caller.Admits low
          · exact ha
          · exact absurd ⟨c, hc, he, ha⟩ (h line m .here)
        rw [call_of_admits hadmits, call_of_admits (hadmits.raise hlimits), hlimits.scope]
        rw [bodyEnd_congr hadmits]
        intro next n hr
        obtain ⟨hlt, hd⟩ := hr.deeper hc
        apply ih hlt n hd
        intro line' m' hin
        exact h line' m' (.inside hc hr hin)

/-- The lines that a body runs before a limit is hit are run under higher limits too. -/
theorem Runs.raise (hlimits : low.Raised high) (hdepth : 0 ≤ c.caller.depth) (h : Runs low c line m) :
    Runs high c line m := by
  obtain ⟨values, done, rest, hvalues, hbody, hrun⟩ := h.started
  refine ⟨h.admits.raise hlimits, ⟨values, done, rest, hvalues, hbody, ?_⟩, h.live⟩
  rw [← hrun, runBody_eq_foldlM rfl, runBody_eq_foldlM rfl]
  symm
  apply foldlM_congr
  intro before next after n hdone hbefore
  unfold resume
  split
  · rfl
  · next hn =>
    rw [← runBody_eq_foldlM rfl] at hbefore
    have hlive : n.exhausted = false := by simpa using hn
    have hr : Runs low c next n := by
      refine ⟨h.admits, ⟨values, before, after ++ line :: rest, hvalues, ?_, hbefore⟩, hlive⟩
      rw [hbody, hdone, List.append_assoc, List.cons_append]
    rw [hdone] at hrun
    obtain ⟨k, hk, hklive, -⟩ := before_of_runBody rfl hbefore hlive hrun h.live
    have hd := hr.depth
    symm
    apply execute_raise hlimits
    intro line' m' hin hrefused
    have hunwound := hin.exhausts hrefused (by omega) hk
    rw [hklive] at hunwound
    cases hunwound

theorem Reached.raise (hlimits : low.Raised high) (hdepth : 0 ≤ m.depth)
    (h : Reached low line m line' m') : Reached high line m line' m' := by
  induction h with
  | here => exact .here
  | inside hc hr _ ih =>
    have hd := (hr.deeper hc).2
    have hcaller := invocation?_depth hc
    exact .inside (by rw [hlimits.marker, hc]) (hr.raise hlimits (by omega)) (ih (by omega))

/-- Raising the limits only extends what a statement prints. Either no call is refused and
nothing changes, or one is: then it is the last thing that is run, the output ends with the
one line that it prints, and higher limits come to the same call with the same output. -/
theorem raised_limits_extend_output {low high : Config} {line : Text} {m n n' : Machine}
    (hlimits : low.Raised high) (hdepth : 0 ≤ m.depth)
    (h : execute low line m = .ok n) (h' : execute high line m = .ok n') :
    (n = n' ∨ ∃ o, n.output = o ++ [recursionMessage] ∧ o <+: n'.output) ∧
    ((∀ line' m', Reached low line m line' m' → ¬ Refused low line' m') → n = n') ∧
    (∀ line' m', Reached low line m line' m' → Refused low line' m' →
      n.output = m'.output ++ [recursionMessage] ∧ n.calls = m'.calls ∧
      Reached high line m line' m' ∧ m'.output <+: n'.output ∧
      ∀ line₂ m₂, Reached low line m line₂ m₂ →
        m₂.output <+: m'.output ∧ m₂.calls ≤ m'.calls ∧
        (Refused low line₂ m₂ → line₂ = line' ∧ m₂ = m')) := by
  have hsame : (∀ line' m', Reached low line m line' m' → ¬ Refused low line' m') → n = n' := by
    intro hnone
    have heq := execute_raise hlimits hnone
    rw [h, h'] at heq
    cases heq
    rfl
  refine ⟨?_, hsame, ?_⟩
  · by_cases hex : ∃ line' m', Reached low line m line' m' ∧ Refused low line' m'
    · obtain ⟨line', m', hreached, hrefused⟩ := hex
      obtain ⟨houtput, -, -⟩ := hreached.ends_refused hrefused hdepth h
      have hhigh := hreached.raise hlimits hdepth
      exact Or.inr ⟨m'.output, houtput, (hhigh.extends_end h').output⟩
    · refine Or.inl (hsame ?_)
      intro line' m' hreached hrefused
      exact hex ⟨line', m', hreached, hrefused⟩
  · intro line' m' hreached hrefused
    obtain ⟨houtput, hcalls, -⟩ := hreached.ends_refused hrefused hdepth h
    have hhigh := hreached.raise hlimits hdepth
    refine ⟨houtput, hcalls, hhigh, (hhigh.extends_end h').output, ?_⟩
    intro line₂ m₂ h₂
    obtain ⟨hext, hunique⟩ := hreached.precedes_refused hrefused hdepth h h₂
    exact ⟨hext.output, hext.calls, hunique⟩

/-- A machine that knows a function which prints and then calls itself. -/
def endless : Machine where
  memory := [("f".toList, .function ⟨"f".toList, [], ["print(1)".toList, "f()".toList]⟩)]

/-- One more level of nesting lets the endless function print once more. -/
theorem raised_limits_extend_output_endless :
    ∃ n n', execute { maxDepth := 1 } "f()".toList endless = .ok n ∧
      execute { maxDepth := 2 } "f()".toList endless = .ok n' ∧
      n'.output = [['1'], ['1'], recursionMessage] ∧
      ∃ o, n.output = o ++ [recursionMessage] ∧ o <+: n'.output := by
  have hn := Option.eq_some_of_isSome
    (o := (execute { maxDepth := 1 } "f()".toList endless).toOption) (by decide +kernel)
  have hn' := Option.eq_some_of_isSome
    (o := (execute { maxDepth := 2 } "f()".toList endless).toOption) (by decide +kernel)
  have hlimits : Config.Raised { maxDepth := 1 } { maxDepth := 2 } :=
    ⟨rfl, rfl, rfl, by decide, by decide⟩
  obtain ⟨hextends, -, -⟩ := raised_limits_extend_output hlimits (by decide)
    (eq_ok_of_toOption hn) (eq_ok_of_toOption hn')
  refine ⟨_, _, eq_ok_of_toOption hn, eq_ok_of_toOption hn', by decide +kernel, ?_⟩
  exact hextends.resolve_left (by decide +kernel)

end Machine

end SnippetTutor
