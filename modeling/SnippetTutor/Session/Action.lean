import SnippetTutor.Session.Basic
import SnippetTutor.Text.Quoted
import SnippetTutor.Trace.Transcript

/-! # Actions

The ways to change a session. An action that is refused leaves the session as it was.
-/
namespace SnippetTutor

/-- The last action stands for a request by a name that names no action. -/
inductive Action
  | step
  | runAll
  | reset
  | edit (source : Text)
  | load (lesson : Lesson)
  | unknown (name : Text)
deriving Inhabited

inductive Refusal
  | fault (f : Fault)
  | unknownAction (name : Text)
deriving DecidableEq, Inhabited

def Refusal.message : Refusal → Text
  | .fault f => f.message.toList
  | .unknownAction name => "Unknown playground action: ".toList ++ Text.quoted name

namespace Session

def orFault {α : Type} : Except Fault α → Except Refusal α :=
  Except.mapError Refusal.fault

def Progress.result (p : Progress) : Except Fault Session :=
  match p.fault with
  | none => .ok p.session
  | some fault => .error fault

/-- The session after an action. -/
def reduce (s : Session) : Action → Except Refusal Session
  | .step => orFault s.step
  | .runAll => orFault s.runToEnd.result
  | .reset => .ok s.restart
  | .edit source => .ok (ofSource s.config source)
  | .load lesson => orFault (ofLesson s.config lesson)
  | .unknown name => .error (.unknownAction name)

/-- Whether an action leaves the very session in place, so that nobody is notified:
only a step after the end does. -/
def ignores (s : Session) : Action → Bool
  | .step => s.phase = .completed
  | _ => false

/-- The records of the lines that an action executes, also those before a fault.
Replayed steps execute nothing. -/
def executed (s : Session) (action : Action) : List StepRecord :=
  if s.authored.isSome then []
  else match action with
    | .step => match s.step with
      | .ok next => next.history.drop s.history.length
      | .error _ => []
    | .runAll => s.runToEnd.session.history
    | _ => []

/-- What a verbose session shows while an action is carried out. -/
def transcript (s : Session) (action : Action) : Text :=
  s.config.transcript (s.executed action)

end Session

end SnippetTutor
