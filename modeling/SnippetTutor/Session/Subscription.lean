import SnippetTutor.Session.Action

/-! # Subscriptions

A board holds the current session and the listeners that are told of every change, in
the order in which they subscribed. Listeners are told apart by their equality alone: a
listener that subscribed several times is told several times, and each of its withdrawals
takes out its earliest subscription. Subscribers with a listener each do not disturb one
another, whatever the listeners are called.
-/
namespace SnippetTutor

structure Board (Listener : Type) where
  session : Session
  listeners : List Listener := []
deriving Inhabited

namespace Board

variable {Listener : Type}

def subscribe (b : Board Listener) (listener : Listener) : Board Listener :=
  { b with listeners := b.listeners ++ [listener] }

/-- Withdraws a listener; one that is not subscribed changes nothing. -/
def withdraw [BEq Listener] (b : Board Listener) (listener : Listener) : Board Listener :=
  { b with listeners := b.listeners.erase listener }

/-- The listeners to be told of the outcome of an action. -/
def notified (b : Board Listener) (action : Action) : List Listener :=
  match b.session.reduce action with
  | .ok _ => if b.session.ignores action then [] else b.listeners
  | .error _ => []

/-- Carries out an action. A refused action leaves the board as it was. -/
def dispatch (b : Board Listener) (action : Action) : Except Refusal (Board Listener) := do
  .ok { b with session := ← b.session.reduce action }

end Board

end SnippetTutor
