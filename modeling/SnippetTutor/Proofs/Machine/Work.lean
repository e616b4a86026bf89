import SnippetTutor.Proofs.Machine.Core
import SnippetTutor.Proofs.Machine.Evaluation
import SnippetTutor.Proofs.Machine.Functions

/-! # The work of a statement

The work of a statement is bounded by what the call budget allows: each call that is
admitted adds the lines of one body, and no body that comes up is longer than those that
were there before. A line, a refused one included, prints at most once.
That an evaluation ends is said for a stack that holds the calls which the limits admit (`Fault`).
-/
namespace SnippetTutor.Machine
open Outcome

namespace Job

/-- The lines that the job executes itself, besides those of the bodies that are called. -/
def size : Job → Nat
  | .line _ => 1
  | .body lines => lines.length

def Placed : Job → Machine → Prop
  | .line _, m => 0 ≤ m.depth
  | .body _, m => 0 < m.depth

def Flush : Job → Prop
  | .line _ => True
  | .body lines => ∀ line ∈ lines, isIndented line = false

end Job

variable {config : Config} {caller : Caller} {marker line : Text} {job : Job} {shape : Shape}
  {m n k : Machine} {w : Work} {r : Except Fault Machine} {c : Invocation}

section Output

/-- The machine `n` has at most `limit` more lines of output than `m`. -/
def Prints (limit : Nat) (m n : Machine) : Prop :=
  ∃ added, n.output = m.output ++ added ∧ added.length ≤ limit

variable {a b : Nat}

theorem prints_of_eq (h : n.output = m.output) : Prints a m n :=
  ⟨[], by rw [h, List.append_nil], Nat.zero_le a⟩

theorem Prints.trans (hmn : Prints a m n) (hnk : Prints b n k) : Prints (a + b) m k := by
  obtain ⟨added, hn, ha⟩ := hmn
  obtain ⟨more, hk, hb⟩ := hnk
  refine ⟨added ++ more, by rw [hk, hn, List.append_assoc], ?_⟩
  rw [List.length_append]
  omega

theorem perform_prints (h : shapeCall? shape m = none) (hx : perform caller shape m = .ok n) :
    Prints 1 m n := by
  cases shape with
  | header name params =>
    cases hx
    exact prints_of_eq rfl
  | assignment name expr =>
    have houtput := congrArg output (assign_frame hx)
    exact prints_of_eq houtput
  | print argument =>
    cases hx
    exact ⟨_, rfl, Nat.le_refl 1⟩
  | method object name arguments =>
    have houtput := congrArg output (callMethod_frame hx)
    exact prints_of_eq houtput
  | call name arguments =>
    have hf : m.memory.function? name = none := Option.map_eq_none_iff.mp h
    simp only [perform, hf] at hx
    cases hx
    exact prints_of_eq rfl
  | unrecognized =>
    cases hx
    exact prints_of_eq rfl

/-- The work `w` accounts for what is different in `n`: the account of calls grows by the
bodies that are entered, and the output by no more lines than are executed. -/
structure Charged (w : Work) (m n : Machine) : Prop where
  calls : n.calls = m.calls + w.calls
  prints : Prints w.lines m n

theorem Charged.trans {w' : Work} (hmn : Charged w m n) (hnk : Charged w' n k) :
    Charged (w.add w') m k := by
  refine ⟨?_, hmn.prints.trans hnk.prints⟩
  have hn := hmn.calls
  have hk := hnk.calls
  simp only [Work.add]
  omega

theorem charged_of_uncalled (hcalls : n.calls = m.calls) (hprints : Prints 1 m n) :
    Charged .one m n :=
  ⟨by simp only [hcalls, Work.one, Int.natCast_zero, Int.add_zero], hprints⟩

theorem executeWith_charged (h : invocation? marker line m = none)
    (hx : executeWith caller marker line m = .ok n) : Charged .one m n := by
  apply charged_of_uncalled
  · rw [executeWith_core h] at hx
    obtain ⟨k, -, rfl⟩ := map_eq_ok.mp hx
    rfl
  · cases hp : performed? marker line m with
    | none =>
      rcases executeWith_of_not_performed hp with hn | ⟨text, -, hn⟩
      · rw [hn] at hx
        cases hx
        exact prints_of_eq rfl
      · rw [hn] at hx
        cases hx
        exact prints_of_eq rfl
    | some p =>
      obtain ⟨shape, start⟩ := p
      have hcall : shapeCall? shape start = none := by simpa [invocation?, hp] using h
      rw [executeWith_of_performed hp] at hx
      obtain ⟨added, hadded, hlength⟩ := perform_prints hcall hx
      refine ⟨added, ?_, hlength⟩
      rcases performed?_machine hp with rfl | rfl
      · exact hadded
      · rw [hadded, closeDefinition_output]

theorem leave_charged (hc : invocation? marker line m = some c) {values : List Value}
    (h : Charged w (c.caller.enter c.function values) n) (policy : ScopePolicy) (depth : Int) :
    Charged (w.above depth) m (c.caller.leave policy c.function n.closeDefinition) := by
  constructor
  · have hcalls := h.calls
    have hcaller := invocation?_calls hc
    have hentered : (c.caller.enter c.function values).calls = c.caller.calls + 1 := rfl
    rw [leave_calls, closeDefinition_calls]
    simp only [Work.above, Int.natCast_add]
    omega
  · obtain ⟨added, hadded, hlength⟩ := h.prints
    refine ⟨added, ?_, Nat.le_succ_of_le hlength⟩
    rw [leave_output, closeDefinition_output, hadded, ← invocation?_output hc]
    rfl

theorem Evaluates.charged (h : Evaluates config job m w (.ok n)) : Charged w m n := by
  generalize hr : Except.ok n = r at h
  induction h generalizing n with
  | own hc => exact executeWith_charged hc hr.symm
  | unwinding hc _ =>
    cases hr
    exact charged_of_uncalled (invocation?_calls hc) (prints_of_eq (invocation?_output hc))
  | refused hc _ _ =>
    cases hr
    refine charged_of_uncalled (invocation?_calls hc) ⟨[recursionMessage], ?_, Nat.le_refl 1⟩
    rw [abandon_output, invocation?_output hc]
  | entered hc _ _ _ ih =>
    obtain ⟨inner, rfl, rfl⟩ := map_eq_ok.mp hr.symm
    exact leave_charged hc (ih rfl) config.scope _
  | done =>
    cases hr
    exact ⟨(Int.add_zero _).symm, prints_of_eq rfl⟩
  | unread | faulty => cases hr
  | last _ _ ih => exact ih hr
  | next _ _ _ ih ihrest => exact (ih rfl).trans (ihrest hr)

end Output

section Bounds

theorem invocation?_floor (hc : invocation? marker line m = some c) : c.caller.floor = m.floor := by
  have hfloor : c.caller.callFloor = m.callFloor := by
    rcases invocation?_caller hc with hm | hm
    · rw [hm]
    · rw [hm, (closeDefinition_returned m).callFloor]
  unfold Machine.floor
  rw [invocation?_depth hc, invocation?_calls hc, hfloor]

/-- The calls that are made stay within the budget of the outermost call. -/
theorem Evaluates.calls_le (h : Evaluates config job m w r) (hplaced : job.Placed m) :
    m.calls - m.floor + w.calls ≤ max (m.calls - m.floor) config.maxCalls := by
  induction h with
  | own | unwinding | refused | unread | done =>
    simp only [Work.one, Int.natCast_zero]
    omega
  | @entered line m c values w r hc ha _ _ ih =>
    have hdepth : 0 ≤ m.depth := hplaced
    have hcaller := invocation?_depth hc
    have hbody := ih (show 0 < c.caller.depth + 1 by omega)
    have hfloor : (c.caller.enter c.function values).floor = m.floor := by
      rw [← invocation?_floor hc]
      exact if_neg (show c.caller.depth + 1 ≠ 0 by omega)
    have hcalls : (c.caller.enter c.function values).calls = m.calls + 1 := by
      rw [← invocation?_calls hc]
      rfl
    have hbudget := ha.2.1
    rw [invocation?_calls hc, invocation?_floor hc] at hbudget
    rw [hfloor, hcalls] at hbody
    simp only [Work.above, Int.natCast_add]
    omega
  | faulty _ ih => exact ih (Int.le_of_lt hplaced)
  | last _ _ ih => exact ih (Int.le_of_lt hplaced)
  | @next line rest m n w w' r hline _ _ ih ihrest =>
    -- Inside a call the floor stays where it is from line to line.
    have hinside : 0 < m.depth := hplaced
    have hreturned := execute_returned hline.eq_run.symm
    have hdepth := hreturned.depth
    have hfloor : n.floor = m.floor := by
      unfold Machine.floor
      rw [if_neg (by omega), if_neg (by omega), hreturned.callFloor]
    have hfirst := ih (Int.le_of_lt hplaced)
    have hrest := ihrest (show 0 < n.depth by omega)
    have hcalls := hline.charged.calls
    rw [hfloor, hcalls] at hrest
    simp only [Work.add, Int.natCast_add]
    omega

/-- Every call adds the lines of one body to those of the job itself. -/
theorem Evaluates.lines_le {longest : Nat} (h : Evaluates config job m w r) (hflush : job.Flush)
    (hm : m.HoldsOnly fun f => f.Flush ∧ f.body.length ≤ longest) :
    w.lines ≤ job.size + w.calls * longest := by
  induction h with
  | own | unwinding | refused | unread | done => exact Nat.le_add_right _ _
  | @entered line m c values w r hc _ hvalues _ ih =>
    obtain ⟨⟨hbodyFlush, hlength⟩, -⟩ := hm.invocation hc
    have hbody := ih hbodyFlush (hm.entered hc hvalues)
    simp only [Job.size, Work.above] at hbody ⊢
    rw [Nat.add_mul, Nat.one_mul]
    omega
  | faulty _ ih =>
    have hline := ih trivial hm
    simp only [Job.size, List.length_cons] at hline ⊢
    omega
  | last _ _ ih =>
    have hline := ih trivial hm
    simp only [Job.size, List.length_cons] at hline ⊢
    omega
  | @next line rest m n w w' r hline _ _ ih ihrest =>
    obtain ⟨hfirst, hmore⟩ := List.forall_mem_cons.mp hflush
    -- What the line itself has defined is still without a body.
    have hn : n.HoldsOnly fun f => f.Flush ∧ f.body.length ≤ longest := by
      apply hm.execute _ (fun _ hf => hf.1) (stores_of_not_isIndented hfirst) hline.eq_run.symm
      intro name params
      exact ⟨fun _ hmem => absurd hmem List.not_mem_nil, Nat.zero_le longest⟩
    have hone := ih trivial hm
    have hrest := ihrest hmore hn
    simp only [Job.size, List.length_cons, Work.add] at hone hrest ⊢
    rw [Nat.add_mul]
    omega

theorem Evaluates.depth_le (h : Evaluates config job m w r) : w.depth ≤ max 0 config.maxDepth := by
  induction h with
  | own | unwinding | refused | unread | done =>
    simp only [Work.one]
    omega
  | entered _ ha _ _ ih =>
    have hadmitted := ha.2.2
    simp only [Work.above]
    omega
  | faulty _ ih | last _ _ ih => exact ih
  | next _ _ _ ih ihrest =>
    simp only [Work.add]
    omega

end Bounds

/-- The work of a statement is bounded. Its evaluation ends; it enters no more bodies than the
call budget admits, none of them below the depth limit, and executes besides the line itself
no more lines than as many bodies can have. Nor does it print more. -/
theorem statement_work_bounded {config : Config} {line : Text} {m : Machine}
    (h : Reachable config m) :
    (∃ w, Evaluates config (.line line) m w (execute config line m)) ∧
    (∀ w r, Evaluates config (.line line) m w r → r = execute config line m ∧
      w.calls ≤ max 0 config.maxCalls ∧ w.depth ≤ max 0 config.maxDepth ∧
      w.lines ≤ 1 + w.calls * m.longestBody) ∧
    ∀ n, execute config line m = .ok n →
      n.calls - m.calls ≤ max 0 config.maxCalls ∧
      ∃ added, n.output = m.output ++ added ∧
        added.length ≤ 1 + max 0 config.maxCalls * m.longestBody := by
  have hfunctions : m.HoldsOnly fun f => f.Flush ∧ f.body.length ≤ m.longestBody :=
    fun f hf => ⟨h.flush f hf, length_le_longestBody hf⟩
  have hbounds : ∀ w r, Evaluates config (.line line) m w r →
      w.calls ≤ max 0 config.maxCalls ∧ w.lines ≤ 1 + w.calls * m.longestBody := by
    intro w r hw
    have hfloor : m.floor = m.calls := if_pos h.depth
    have hcalls := hw.calls_le (Int.le_of_eq h.depth.symm)
    rw [hfloor, Int.sub_self] at hcalls
    exact ⟨by omega, hw.lines_le trivial hfunctions⟩
  refine ⟨exists_evaluates config line m, ?_, ?_⟩
  · intro w r hw
    obtain ⟨hcalls, hlines⟩ := hbounds w r hw
    exact ⟨hw.eq_run, hcalls, hw.depth_le, hlines⟩
  · intro n hn
    obtain ⟨w, hw⟩ := exists_evaluates config line m
    obtain ⟨hcalls, hlines⟩ := hbounds w _ hw
    rw [hn] at hw
    obtain ⟨hcount, added, hadded, hlength⟩ := hw.charged
    refine ⟨by omega, added, hadded, ?_⟩
    have hbodies : (w.calls : Int) * m.longestBody ≤ max 0 config.maxCalls * m.longestBody :=
      Int.mul_le_mul_of_nonneg_right hcalls (Int.natCast_nonneg _)
    have htotal : (added.length : Int) ≤ 1 + (w.calls : Int) * m.longestBody := by
      exact_mod_cast Nat.le_trans hlength hlines
    omega

/-- The machine in which the definition of a function that prints and then calls itself is
still open. -/
def defining : Machine where
  pending := some ⟨"f".toList, [], ["print(1)".toList, "f()".toList]⟩

theorem reachable_defining (calls : Int) : Reachable { maxCalls := calls } defining :=
  ⟨["def f():".toList, "  print(1)".toList, "  f()".toList], rfl⟩

/-- With a budget of three calls the function prints three times before it is given up, which
is less than the seven lines that the bound allows. -/
theorem statement_work_bounded_defining :
    ∃ n, execute { maxCalls := 3 } "f()".toList defining = .ok n ∧ n.calls = 3 ∧
      n.output = [['1'], ['1'], ['1'], recursionMessage] ∧
      n.calls - defining.calls ≤ max 0 3 ∧ defining.longestBody = 2 ∧
      ∃ added, n.output = defining.output ++ added ∧
        added.length ≤ 1 + max 0 3 * (defining.longestBody : Int) := by
  have hn := Option.eq_some_of_isSome
    (o := (execute { maxCalls := 3 } "f()".toList defining).toOption) (by decide +kernel)
  have hexecute := eq_ok_of_toOption hn
  have hbounded := @statement_work_bounded _ "f()".toList _ (reachable_defining 3)
  obtain ⟨hcalls, houtput⟩ := hbounded.2.2 _ hexecute
  exact ⟨_, hexecute, by decide +kernel, by decide +kernel, hcalls, by decide, houtput⟩

end SnippetTutor.Machine
