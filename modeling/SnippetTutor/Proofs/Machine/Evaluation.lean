import SnippetTutor.Proofs.Machine.Recursion

/-! # Evaluation as a tree

The evaluation of a statement is a tree of evaluations: a line that calls a function has
the body of that function below it. The rules of such trees count no levels of
nesting, and still every line has a tree, whose result is that of the execution.
-/
namespace SnippetTutor.Machine
open Outcome

inductive Job
  | line (text : Text)
  | body (lines : List Text)

/-- The number of lines that are executed and of bodies that are entered, and the depth at
which the deepest of them is, zero if there is none. -/
structure Work where
  lines : Nat := 0
  calls : Nat := 0
  depth : Int := 0

namespace Work

def one : Work := { lines := 1 }

def add (a b : Work) : Work := ⟨a.lines + b.lines, a.calls + b.calls, max a.depth b.depth⟩

/-- The work of a line that enters a body at the given depth. -/
def above (w : Work) (depth : Int) : Work := ⟨w.lines + 1, w.calls + 1, max depth w.depth⟩

end Work

/-- A line that makes no call has no use for a caller. -/
def idle : Caller := fun _ _ m => .ok m

/-- The trees of evaluations, with the work that is done in them and their result. -/
inductive Evaluates (config : Config) : Job → Machine → Work → Except Fault Machine → Prop
  | own {line : Text} {m : Machine} :
      invocation? config.marker line m = none →
      Evaluates config (.line line) m .one (executeWith idle config.marker line m)
  | unwinding {line : Text} {m : Machine} {c : Invocation} :
      invocation? config.marker line m = some c → c.caller.exhausted = true →
      Evaluates config (.line line) m .one (.ok c.caller)
  | refused {line : Text} {m : Machine} {c : Invocation} :
      invocation? config.marker line m = some c → c.caller.exhausted = false →
      ¬ c.caller.Admits config →
      Evaluates config (.line line) m .one (.ok c.caller.abandon)
  | unread {line : Text} {m : Machine} {c : Invocation} {fault : Fault} :
      invocation? config.marker line m = some c → c.caller.Admits config →
      (Arguments.split c.arguments).mapM (Literal.coerce c.caller.memory) = .error fault →
      Evaluates config (.line line) m .one (.error fault)
  | entered {line : Text} {m : Machine} {c : Invocation} {values : List Value} {w : Work}
      {r : Except Fault Machine} :
      invocation? config.marker line m = some c → c.caller.Admits config →
      (Arguments.split c.arguments).mapM (Literal.coerce c.caller.memory) = .ok values →
      Evaluates config (.body c.function.body) (c.caller.enter c.function values) w r →
      Evaluates config (.line line) m (w.above (c.caller.depth + 1))
        (r.map fun inner => c.caller.leave config.scope c.function inner.closeDefinition)
  | done {m : Machine} : Evaluates config (.body []) m {} (.ok m)
  | faulty {line : Text} {rest : List Text} {m : Machine} {w : Work} {fault : Fault} :
      Evaluates config (.line line) m w (.error fault) →
      Evaluates config (.body (line :: rest)) m w (.error fault)
  | last {line : Text} {rest : List Text} {m n : Machine} {w : Work} :
      Evaluates config (.line line) m w (.ok n) → n.exhausted = true →
      Evaluates config (.body (line :: rest)) m w (.ok n)
  | next {line : Text} {rest : List Text} {m n : Machine} {w w' : Work} {r : Except Fault Machine} :
      Evaluates config (.line line) m w (.ok n) → n.exhausted = false →
      Evaluates config (.body rest) n w' r →
      Evaluates config (.body (line :: rest)) m (w.add w') r

namespace Job

def run (config : Config) : Job → Machine → Except Fault Machine
  | .line text, m => execute config text m
  | .body lines, m => runBody (execute config) lines m

end Job

variable {config : Config} {line : Text} {lines : List Text} {job : Job} {m n : Machine} {w : Work}
  {r : Except Fault Machine}

theorem Evaluates.eq_run (h : Evaluates config job m w r) : r = job.run config m := by
  induction h with
  | own hc => exact executeWith_of_no_invocation hc
  | unwinding hc he => rw [Job.run, execute_of_invocation hc, call_of_exhausted he]
  | refused hc he ha => rw [Job.run, execute_of_invocation hc, call_of_refused he ha]
  | unread hc ha hvalues =>
    rw [Job.run, execute_of_invocation hc, call_of_admits ha, bodyEnd, hvalues]
    rfl
  | @entered line m c values w r hc ha hvalues _ ih =>
    rw [Job.run, execute_of_invocation hc, call_of_admits ha, bodyEnd, hvalues, ih, Job.run]
    change _ = Except.map _ (runBody (execute config) c.function.body (c.caller.enter c.function values)
      >>= fun inner => .ok inner.closeDefinition)
    rw [map_bind]
    cases runBody (execute config) c.function.body (c.caller.enter c.function values) <;> rfl
  | done => rfl
  | @faulty line rest m w fault _ ih =>
    have hline : execute config line m = .error fault := ih.symm
    simp only [Job.run, runBody, hline]
    rfl
  | last _ hn ih => exact (runBody_cons_of_exhausted ih.symm hn).symm
  | next _ hn _ ih ihrest => exact ihrest.trans (runBody_cons_of_live ih.symm hn).symm

theorem Evaluates.depth (h : Evaluates config (.line line) m w (.ok n)) : n.depth = m.depth :=
  execute_depth h.eq_run.symm

theorem exists_evaluates_body
    (hlines : ∀ line ∈ lines, ∀ k, k.depth = m.depth → ∃ w r, Evaluates config (.line line) k w r) :
    ∃ w r, Evaluates config (.body lines) m w r := by
  induction lines generalizing m with
  | nil => exact ⟨_, _, .done⟩
  | cons line rest ih =>
    obtain ⟨w, r, hw⟩ := hlines line List.mem_cons_self m rfl
    cases r with
    | error fault => exact ⟨_, _, .faulty hw⟩
    | ok n =>
      cases hn : n.exhausted with
      | true => exact ⟨_, _, .last hw hn⟩
      | false =>
        have hrest : ∃ w' r', Evaluates config (.body rest) n w' r' := by
          apply ih
          intro line hline k hk
          exact hlines line (List.mem_cons_of_mem _ hline) k (hk.trans hw.depth)
        obtain ⟨w', r', hw'⟩ := hrest
        exact ⟨_, _, .next hw hn hw'⟩

/-- Every line has an evaluation, whatever the limits are. -/
theorem exists_evaluates (config : Config) (line : Text) (m : Machine) :
    ∃ w, Evaluates config (.line line) m w (execute config line m) := by
  have hexists : ∃ w r, Evaluates config (.line line) m w r := by
    induction m using depth_induction config generalizing line with
    | step m ih =>
      cases hc : invocation? config.marker line m with
      | none => exact ⟨_, _, .own hc⟩
      | some c =>
        cases he : c.caller.exhausted with
        | true => exact ⟨_, _, .unwinding hc he⟩
        | false =>
          by_cases ha : c.caller.Admits config
          · cases hvalues : (Arguments.split c.arguments).mapM (Literal.coerce c.caller.memory) with
            | error fault => exact ⟨_, _, .unread hc ha hvalues⟩
            | ok values =>
              have hdepth := invocation?_depth hc
              have hbody : ∃ w r, Evaluates config (.body c.function.body)
                  (c.caller.enter c.function values) w r := by
                apply exists_evaluates_body
                intro line _ k hk
                apply ih (hdepth ▸ ha.2.2) k
                rw [hk, enter_depth, hdepth]
              obtain ⟨w, r, hw⟩ := hbody
              exact ⟨_, _, .entered hc ha hvalues hw⟩
          · exact ⟨_, _, .refused hc he ha⟩
  obtain ⟨w, r, hw⟩ := hexists
  have hr := hw.eq_run
  subst hr
  exact ⟨w, hw⟩

end SnippetTutor.Machine
