import Mathlib.Data.List.Induction
import Mathlib.Data.List.Nodup
import Mathlib.Data.List.Perm.Basic
import SnippetTutor.Session.Subscription

/-! # Who is told

Each subscription returns a handle that withdraws it. The handle knows its listener only, and the
board takes out the earliest subscription of that listener. A ledger keeps the subscriptions apart,
and says who is due to be told: the listeners of the subscriptions whose own handle has not been
called. Those who are told are those who are due as long as every withdrawal is harmless.
-/
namespace SnippetTutor

/-- What is done to a board: a listener subscribes, the handle of a subscription is called, these
being counted from the first one, or an action is dispatched. -/
inductive BoardCall (Listener : Type)
  | subscribe (listener : Listener)
  | withdraw (handle : Nat)
  | dispatch (action : Action)

/-- A subscription has ended when its own handle has been called. -/
structure Subscription (Listener : Type) where
  listener : Listener
  ended : Bool := false

/-- A board with all the subscriptions there have been. -/
structure Ledger (Listener : Type) where
  board : Board Listener
  subscriptions : List (Subscription Listener) := []

section Lists
variable {α : Type}

theorem concat_eq_cons_iff {x : α} {xs : List α} : xs ++ [x] = x :: xs ↔ ∀ y ∈ xs, y = x := by
  induction xs with
  | nil => simp
  | cons y ys ih =>
    constructor
    · intro h
      obtain ⟨rfl, htail⟩ := List.cons_eq_cons.mp h
      simpa using ih.mp htail
    · intro h
      obtain ⟨rfl, hrest⟩ := List.forall_mem_cons.mp h
      rw [List.cons_append, ih.mpr hrest]

/-- Taking out the first occurrence takes out the given one, if only equals stand between them. -/
theorem erase_append_cons_iff [DecidableEq α] {x : α} {xs ys : List α} :
    (xs ++ x :: ys).erase x = xs ++ ys ↔ ∀ y, [x, y].Sublist xs → y = x := by
  induction xs with
  | nil => simp
  | cons z zs ih =>
    by_cases hz : z = x
    · subst hz
      have hmove : zs ++ z :: ys = z :: zs ++ ys ↔ zs ++ [z] = z :: zs := by
        rw [← List.append_cancel_right_eq (zs ++ [z]) ys, List.append_assoc, List.singleton_append]
      rw [List.cons_append, List.erase_cons_head, hmove, concat_eq_cons_iff]
      refine forall_congr' fun y => imp_congr_left ?_
      rw [List.cons_sublist_cons, List.singleton_sublist]
    · have hskip : ∀ y, [x, y].Sublist (z :: zs) ↔ [x, y].Sublist zs := fun y =>
        ⟨fun h => List.Sublist.of_cons_of_ne (Ne.symm hz) h, List.Sublist.cons z⟩
      rw [List.cons_append, List.erase_cons_tail (by simpa using hz), List.cons_append, List.cons_inj_right, ih]
      simp only [hskip]

end Lists

variable {Listener : Type}

/-- Who is told of an action, and of which session. -/
def Board.told (b : Board Listener) (action : Action) : List (Listener × Session) :=
  match b.dispatch action with
  | .ok next => (b.notified action).map fun listener => (listener, next.session)
  | .error _ => []

/-- The listeners of the subscriptions that have not ended, in the order of the subscriptions. -/
def due (subscriptions : List (Subscription Listener)) : List Listener :=
  (subscriptions.filter fun subscription => !subscription.ended).map Subscription.listener

namespace Ledger

/-- Who should be told of an action, and of which session: nobody, if it is refused or changes nothing. -/
def owed (s : Ledger Listener) (action : Action) : List (Listener × Session) :=
  match s.board.session.reduce action with
  | .ok next =>
    if s.board.session.ignores action then [] else (due s.subscriptions).map fun listener => (listener, next)
  | .error _ => []

/-- A handle that does not exist cannot be called, and an action that is refused changes nothing. -/
def call [DecidableEq Listener] (s : Ledger Listener) : BoardCall Listener → Ledger Listener
  | .subscribe listener => ⟨s.board.subscribe listener, s.subscriptions ++ [⟨listener, false⟩]⟩
  | .withdraw handle => match s.subscriptions[handle]? with
    | some subscription =>
      ⟨s.board.withdraw subscription.listener, s.subscriptions.set handle { subscription with ended := true }⟩
    | none => s
  | .dispatch action => match s.board.dispatch action with
    | .ok next => { s with board := next }
    | .error _ => s

/-- A board that nobody has subscribed to, after some calls. -/
def opened [DecidableEq Listener] (session : Session) (calls : List (BoardCall Listener)) : Ledger Listener :=
  calls.foldl call ⟨⟨session, []⟩, []⟩

/-- The call of a handle that takes out its own subscription, or one that cannot be told from it:
no listener but its own is due between an earlier subscription of its listener and this one. A
handle that has been called before takes out nothing: its listener is not due any more. -/
def Harmless (s : Ledger Listener) (handle : Nat) : Prop :=
  ∀ subscription, s.subscriptions[handle]? = some subscription →
    if subscription.ended then subscription.listener ∉ due s.subscriptions
    else ∀ other, [subscription.listener, other].Sublist (due (s.subscriptions.take handle)) →
      other = subscription.listener

end Ledger

/-- The listener that a call subscribes. -/
def BoardCall.subscriber? : BoardCall Listener → Option Listener
  | .subscribe listener => some listener
  | .withdraw _ | .dispatch _ => none

section Due
variable {subscriptions before after : List (Subscription Listener)} {subscription : Subscription Listener}
  {handle : Nat}

@[simp] theorem due_nil : due ([] : List (Subscription Listener)) = [] := rfl

theorem due_append (before after : List (Subscription Listener)) :
    due (before ++ after) = due before ++ due after := by
  simp [due]

theorem due_of_live (h : subscription.ended = false) (after : List (Subscription Listener)) :
    due (subscription :: after) = subscription.listener :: due after := by
  simp [due, h]

theorem due_of_ended (h : subscription.ended = true) (after : List (Subscription Listener)) :
    due (subscription :: after) = due after := by
  simp [due, h]

theorem mem_due {listener : Listener} :
    listener ∈ due subscriptions ↔ ∃ s ∈ subscriptions, s.ended = false ∧ s.listener = listener := by
  simp [due, and_assoc]

/-- A subscription stands between those before it and those after it. -/
theorem eq_take_append_drop (h : subscriptions[handle]? = some subscription) :
    subscriptions = subscriptions.take handle ++ subscription :: subscriptions.drop (handle + 1) := by
  obtain ⟨hlt, rfl⟩ := List.getElem?_eq_some_iff.mp h
  rw [← List.drop_eq_getElem_cons hlt, List.take_append_drop]

theorem due_of_getElem? (h : subscriptions[handle]? = some subscription) :
    due subscriptions = due (subscriptions.take handle) ++ due (subscription :: subscriptions.drop (handle + 1)) := by
  rw [← due_append, ← eq_take_append_drop h]

/-- The call of a handle ends its own subscription and no other. -/
theorem due_set (h : subscriptions[handle]? = some subscription) :
    due (subscriptions.set handle { subscription with ended := true }) =
      due (subscriptions.take handle) ++ due (subscriptions.drop (handle + 1)) := by
  obtain ⟨hlt, -⟩ := List.getElem?_eq_some_iff.mp h
  rw [List.set_eq_take_append_cons_drop, if_pos hlt, due_append, due_of_ended rfl]

theorem map_listener_set (h : subscriptions[handle]? = some subscription) :
    (subscriptions.set handle { subscription with ended := true }).map Subscription.listener =
      subscriptions.map Subscription.listener := by
  obtain ⟨hlt, -⟩ := List.getElem?_eq_some_iff.mp h
  conv_rhs => rw [eq_take_append_drop h]
  rw [List.set_eq_take_append_cons_drop, if_pos hlt, List.map_append, List.map_append, List.map_cons, List.map_cons]

end Due

theorem Board.told_eq (b : Board Listener) (action : Action) :
    b.told action = match b.session.reduce action with
      | .ok next => if b.session.ignores action then [] else b.listeners.map fun listener => (listener, next)
      | .error _ => [] := by
  unfold told dispatch notified
  cases h : b.session.reduce action with
  | error refusal => rfl
  | ok next => by_cases hignored : b.session.ignores action <;> simp [hignored, Bind.bind, Except.bind]

namespace Ledger
variable [DecidableEq Listener] {s : Ledger Listener} {session : Session}
  {calls past rest : List (BoardCall Listener)} {handle : Nat}

/-- Those are told who are due. -/
def Settled (s : Ledger Listener) : Prop := s.board.listeners = due s.subscriptions

omit [DecidableEq Listener] in
/-- The board is told apart from the ledger by a dispatch that changes the session, as a reset does. -/
theorem settled_iff : s.Settled ↔ ∀ action, s.board.told action = s.owed action := by
  constructor
  · intro h action
    rw [Board.told_eq, owed, h]
  · intro h
    have hreset := h .reset
    rw [Board.told_eq, owed] at hreset
    have hinjective : Function.Injective fun listener : Listener => (listener, s.board.session.restart) :=
      fun _ _ heq => congrArg Prod.fst heq
    exact hinjective.list_map hreset

theorem opened_concat (session : Session) (past : List (BoardCall Listener)) (c : BoardCall Listener) :
    opened session (past ++ [c]) = (opened session past).call c := by
  simp [opened]

/-! ## One call -/

theorem settled_subscribe (h : s.Settled) (listener : Listener) : (s.call (.subscribe listener)).Settled := by
  simp only [Settled, call, Board.subscribe, due_append, due_of_live, due_nil] at h ⊢
  rw [h]

theorem listeners_dispatch (s : Ledger Listener) (action : Action) :
    (s.call (.dispatch action)).board.listeners = s.board.listeners ∧
      (s.call (.dispatch action)).subscriptions = s.subscriptions := by
  unfold call Board.dispatch
  cases h : s.board.session.reduce action <;> simp [h, Bind.bind, Except.bind]

theorem settled_dispatch (h : s.Settled) (action : Action) : (s.call (.dispatch action)).Settled := by
  obtain ⟨hlisteners, hsubscriptions⟩ := listeners_dispatch s action
  rwa [Settled, hlisteners, hsubscriptions]

theorem call_withdraw {subscription : Subscription Listener} (h : s.subscriptions[handle]? = some subscription) :
    s.call (.withdraw handle) =
      ⟨s.board.withdraw subscription.listener,
        s.subscriptions.set handle { subscription with ended := true }⟩ := by
  simp only [call, h]

theorem call_withdraw_of_none (h : s.subscriptions[handle]? = none) : s.call (.withdraw handle) = s := by
  simp only [call, h]

/-- A withdrawal keeps those who are told and those who are due the same exactly if it is harmless. -/
theorem settled_withdraw_iff (h : s.Settled) : (s.call (.withdraw handle)).Settled ↔ s.Harmless handle := by
  cases hsome : s.subscriptions[handle]? with
  | none => simp [call_withdraw_of_none hsome, h, Harmless, hsome]
  | some subscription =>
    simp only [Settled, call_withdraw hsome, Board.withdraw, Harmless, hsome, Option.some.injEq, forall_eq',
      due_set hsome]
    rw [show s.board.listeners = due s.subscriptions from h]
    cases hended : subscription.ended with
    | true =>
      have hdue := due_of_getElem? hsome
      rw [due_of_ended hended] at hdue
      rw [← hdue, if_pos rfl, List.erase_eq_self_iff]
    | false =>
      rw [due_of_getElem? hsome, due_of_live hended, erase_append_cons_iff]
      simp

/-! ## All calls -/

theorem settled_opened_iff : (∀ past, past <+: calls → (opened session past).Settled) ↔
    ∀ past handle rest, calls = past ++ .withdraw handle :: rest → (opened session past).Harmless handle := by
  constructor
  · rintro h past handle rest rfl
    have hbefore := h past (List.prefix_append _ _)
    have hafter := h (past ++ [.withdraw handle]) ⟨rest, by simp⟩
    rw [opened_concat] at hafter
    exact (settled_withdraw_iff hbefore).mp hafter
  · intro h past
    induction past using List.reverseRecOn with
    | nil => exact fun _ => rfl
    | append_singleton past c ih =>
      rintro ⟨rest, rfl⟩
      have hpast := ih ⟨c :: rest, by simp⟩
      rw [opened_concat]
      cases c with
      | subscribe listener => exact settled_subscribe hpast listener
      | withdraw handle => exact (settled_withdraw_iff hpast).mpr (h past handle rest (by simp))
      | dispatch action => exact settled_dispatch hpast action

/-- Each listener subscribes by its own call. -/
theorem listeners_opened (session : Session) (calls : List (BoardCall Listener)) :
    (opened session calls).subscriptions.map Subscription.listener = calls.filterMap BoardCall.subscriber? := by
  induction calls using List.reverseRecOn with
  | nil => rfl
  | append_singleton past c ih =>
    rw [opened_concat, List.filterMap_append, ← ih]
    cases c with
    | subscribe listener => simp [call, BoardCall.subscriber?]
    | withdraw handle =>
      cases hsome : (opened session past).subscriptions[handle]? with
      | none => simp [call_withdraw_of_none hsome, BoardCall.subscriber?]
      | some subscription =>
        rw [call_withdraw hsome, map_listener_set hsome]
        simp [BoardCall.subscriber?]
    | dispatch action => simp [(listeners_dispatch (opened session past) action).2, BoardCall.subscriber?]

omit [DecidableEq Listener] in
/-- Listeners that have one subscription each cannot be mistaken for one another. -/
theorem harmless_of_nodup (h : (s.subscriptions.map Subscription.listener).Nodup) (handle : Nat) :
    s.Harmless handle := by
  intro subscription hsome
  have hsplit := eq_take_append_drop hsome
  rw [hsplit, List.map_append, List.map_cons, List.nodup_middle, List.nodup_cons, List.mem_append] at h
  have habsent : ∀ others, (∀ other ∈ others, other ∈ s.subscriptions.take handle ∨
      other ∈ s.subscriptions.drop (handle + 1)) → subscription.listener ∉ due others := by
    intro others hothers hmem
    obtain ⟨other, hother, -, hsame⟩ := mem_due.mp hmem
    exact h.1 ((hothers other hother).imp (fun hm => List.mem_map.mpr ⟨other, hm, hsame⟩)
      fun hm => List.mem_map.mpr ⟨other, hm, hsame⟩)
  cases hended : subscription.ended with
  | true =>
    rw [if_pos rfl, due_of_getElem? hsome, due_of_ended hended, ← due_append]
    exact habsent _ fun other => List.mem_append.mp
  | false =>
    rw [if_neg nofun]
    intro other hother
    exact absurd (hother.mem List.mem_cons_self) (habsent _ fun _ => Or.inl)

/-- Handles that are called once withdraw as many subscriptions of each listener as they should. -/
theorem perm_withdraw (h : s.board.listeners.Perm (due s.subscriptions))
    (hlive : ∀ subscription, s.subscriptions[handle]? = some subscription → subscription.ended = false) :
    (s.call (.withdraw handle)).board.listeners.Perm (due (s.call (.withdraw handle)).subscriptions) := by
  cases hsome : s.subscriptions[handle]? with
  | none => rwa [call_withdraw_of_none hsome]
  | some subscription =>
    rw [call_withdraw hsome, due_set hsome]
    rw [due_of_getElem? hsome, due_of_live (hlive subscription hsome)] at h
    have herase := (h.trans List.perm_middle).erase subscription.listener
    rwa [List.erase_cons_head] at herase

theorem perm_opened (hlive : ∀ past handle rest, calls = past ++ .withdraw handle :: rest →
      ∀ subscription, (opened session past).subscriptions[handle]? = some subscription →
        subscription.ended = false) :
    (opened session calls).board.listeners.Perm (due (opened session calls).subscriptions) := by
  induction calls using List.reverseRecOn with
  | nil => exact List.Perm.nil
  | append_singleton past c ih =>
    have hpast := ih fun before handle rest hsplit =>
      hlive before handle (rest ++ [c]) (by rw [hsplit, List.append_assoc, List.cons_append])
    rw [opened_concat]
    cases c with
    | subscribe listener =>
      simp only [call, Board.subscribe, due_append, due_of_live, due_nil]
      exact hpast.append_right [listener]
    | withdraw handle => exact perm_withdraw hpast (hlive past handle [] rfl)
    | dispatch action =>
      obtain ⟨hlisteners, hsubscriptions⟩ := listeners_dispatch (opened session past) action
      rwa [hlisteners, hsubscriptions]

/-- At every moment those who are due are told, in order and of the new session, if and only if every
withdrawal so far was harmless. That is so whenever no listener subscribes twice. If no handle is
called again after its subscription has ended, those who are due are told, each as often as it should
be, but perhaps in another order. Nobody is told of an action that is refused or changes nothing. -/
theorem told_are_due_iff (session : Session) (calls : List (BoardCall Listener)) :
    ((∀ past, past <+: calls →
        ∀ action, (opened session past).board.told action = (opened session past).owed action) ↔
      ∀ past handle rest, calls = past ++ .withdraw handle :: rest → (opened session past).Harmless handle) ∧
    ((calls.filterMap BoardCall.subscriber?).Nodup →
      ∀ action, (opened session calls).board.told action = (opened session calls).owed action) ∧
    ((∀ past handle rest, calls = past ++ .withdraw handle :: rest →
        ∀ subscription, (opened session past).subscriptions[handle]? = some subscription →
          subscription.ended = false) →
      ∀ action, ((opened session calls).board.told action).Perm ((opened session calls).owed action)) ∧
    ∀ action, ((opened session calls).board.session.ignores action = true ∨
        ∃ refusal, (opened session calls).board.session.reduce action = .error refusal) →
      (opened session calls).board.told action = [] := by
  refine ⟨?_, ?_, ?_, ?_⟩
  · rw [← settled_opened_iff]
    exact forall_congr' fun past => imp_congr_right fun _ => settled_iff.symm
  · intro hdistinct
    refine settled_iff.mp (settled_opened_iff.mpr ?_ calls List.prefix_rfl)
    rintro past handle rest rfl
    rw [List.filterMap_append, ← listeners_opened session past] at hdistinct
    exact harmless_of_nodup (List.nodup_append.mp hdistinct).1 handle
  · intro hlive action
    have hperm := perm_opened hlive
    rw [Board.told_eq, owed]
    cases (opened session calls).board.session.reduce action with
    | error refusal => exact List.Perm.nil
    | ok next =>
      cases (opened session calls).board.session.ignores action with
      | true => exact List.Perm.nil
      | false => exact hperm.map fun listener => (listener, next)
  · rintro action (hignored | ⟨refusal, hrefused⟩)
    · rw [Board.told_eq]
      cases (opened session calls).board.session.reduce action <;> simp [hignored]
    · rw [Board.told_eq, hrefused]

/-- A handle that is called twice takes out another subscription of its listener, and a handle that
is called once takes out the wrong one of two. -/
example :
    let session := Session.ofSource {} []
    let repeated : Ledger Nat := opened session [.subscribe 0, .subscribe 0, .withdraw 1, .withdraw 1]
    let disordered : Ledger Nat := opened session [.subscribe 0, .subscribe 1, .subscribe 0, .withdraw 2]
    (repeated.board.told .reset).map Prod.fst = [] ∧ (repeated.owed .reset).map Prod.fst = [0] ∧
    (disordered.board.told .reset).map Prod.fst = [1, 0] ∧ (disordered.owed .reset).map Prod.fst = [0, 1] :=
  ⟨rfl, rfl, rfl, rfl⟩

end Ledger

end SnippetTutor
