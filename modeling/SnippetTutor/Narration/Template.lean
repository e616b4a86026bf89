import SnippetTutor.Text.Quoted
import SnippetTutor.Trace.Record

/-! # Explanations from templates

One sentence for each kind of statement, filled in from the parts of the line and
from the memory after the step. The parts are found by reading the line again; a
record whose kind does not fit its line may have too few of them or too many.
-/
namespace SnippetTutor

/-- How the parts of a line fail the kind of its record. -/
inductive Misfit
  | tooFew (expected got : Nat)
  | tooMany (expected : Nat)
  | noPart
deriving DecidableEq, Inhabited

def Misfit.message : Misfit → Text
  | .tooFew expected got =>
    "not enough values to unpack (expected ".toList ++ Text.ofNat expected ++ ", got ".toList ++
      Text.ofNat got ++ [')']
  | .tooMany expected =>
    "too many values to unpack (expected ".toList ++ Text.ofNat expected ++ [')']
  | .noPart => "tuple index out of range".toList

namespace Template

/-- The misfit of a list of parts that ought to have another length. -/
def misfit (expected got : Nat) : Misfit :=
  if got < expected then .tooFew expected got else .tooMany expected

def named (name : Text) : Text := '\x60' :: name ++ ['\x60']

def explainHeader (name params : Text) : Text :=
  if params.isEmpty then
    "Starts defining the function ".toList ++ named name ++ ", which takes no parameters.".toList
  else
    "Starts defining the function ".toList ++ named name ++ " with parameters ".toList ++ params ++
      ['.']

def bodyLine : Text :=
  "Records this line in the function body; it only runs when the function is called.".toList

def explainAssignment (memory : Memory) (name : Text) : Text :=
  match Fields.get? memory name with
  | some v =>
    "Stores ".toList ++ v.displayItem ++ " in the variable ".toList ++ named name ++ ['.']
  | none => "Assigns a value to ".toList ++ named name ++ ['.']

def explainMethod (memory : Memory) (object action : Text) : Text :=
  match Fields.get? memory object with
  | some v =>
    "Calls ".toList ++ named action ++ " on the list ".toList ++ named object ++
      ", which now holds ".toList ++ v.display ++ ['.']
  | none =>
    "Calls ".toList ++ named (object ++ '.' :: action) ++ ", which changes nothing here.".toList

def explainCall (r : StepRecord) (name : Text) : Text :=
  match r.output.filter (!·.isEmpty) with
  | some _ =>
    "Calls ".toList ++ named name ++ "; its body printed ".toList ++
      Text.ofNat r.outputLines.length ++ " line(s).".toList
  | none =>
    "Calls ".toList ++ named name ++ " and runs its body with the given arguments.".toList

def explainPrint (output : Option Text) : Text :=
  match output.filter (!·.isEmpty) with
  | none => "Prints an empty line.".toList
  | some t =>
    if "NameError".toList.isPrefixOf t then
      "Tries to print a name that was never assigned, so Python reports a NameError.".toList
    else "Prints ".toList ++ Text.quoted t ++ " to the console.".toList

def unsimulated : Text := "This line is shown but not simulated by the playground.".toList

/-- The parts of the line of a record. Comments start with the usual marker here,
whatever marker the run had. -/
def partsOf (source : Text) : List Text :=
  (Shape.ofText (uncomment ['#'] (Text.trim source))).parts

def explain (r : StepRecord) : Except Misfit Text :=
  let parts := partsOf r.source
  match r.kind with
  | .functionHeader => match parts with
    | [name, params] => .ok (explainHeader name params)
    | _ => .error (misfit 2 parts.length)
  | .functionBodyLine => .ok bodyLine
  | .assignment => match parts with
    | name :: _ => .ok (explainAssignment r.memory name)
    | [] => .error .noPart
  | .printCall => .ok (explainPrint r.output)
  | .methodCall => match parts with
    | [object, action, _] => .ok (explainMethod r.memory object action)
    | _ => .error (misfit 3 parts.length)
  | .plainCall => match parts with
    | name :: _ => .ok (explainCall r name)
    | [] => .error .noPart
  | .blank | .comment | .unrecognized => .ok unsimulated

end Template

/-- Explains the steps that have no explanation yet. -/
def explainRecords (records : List StepRecord) : Except Misfit (List StepRecord) :=
  records.mapM fun r => match r.explanation? with
    | some _ => .ok r
    | none => (Template.explain r).map r.explained

end SnippetTutor
