import SnippetTutor.CommandLine.Options
import SnippetTutor.Export
import SnippetTutor.Narration.Tutor
import SnippetTutor.Text.Lines
import SnippetTutor.Trace.Transcript

/-! # The command line

Traces a snippet and prints what happened. Without a file a small built-in snippet is
shown and traced. A verbose run shows its steps before anything else about the trace.
-/
namespace SnippetTutor.CommandLine

def demoSource : Text :=
  "# A tiny tour of the playground
name = 'Python'
items = ['b', 'a']
items.append('c')
items.sort()
print('Hello ' + name)

def greet(who):
    print('Hi ' + who)

greet(name)
print(items)
".toList

/-- What a finished command leaves: its exit code, both outputs, and the chat model
that was asked for, if one was. -/
structure Outcome where
  exitCode : Nat := 0
  stdout : Text := []
  stderr : Text := []
  narrator : Option (Provider × Given Text) := none
deriving DecidableEq, Inhabited

/-- Why a file cannot be read. -/
inductive FileTrouble
  | missing
  | directory
  | notDirectory
  | badName
deriving DecidableEq, Inhabited

/-- The ways in which a command stops without an outcome. -/
inductive Stop
  | file (trouble : FileTrouble) (name : Text)
  | noScope
  | noCount
  | fault (f : Fault)
  | misfit (m : Misfit)
deriving DecidableEq, Inhabited

/-- What is said about a file; of a missing one nothing is. -/
def FileTrouble.message (name : Text) : FileTrouble → Text
  | .missing => []
  | .directory => "[Errno 21] Is a directory: ".toList ++ Text.quoted name
  | .notDirectory => "[Errno 20] Not a directory: ".toList ++ Text.quoted name
  | .badName => "embedded null byte".toList

def Stop.message : Stop → Text
  | .file trouble name => trouble.message name
  | .noScope => "[] is not a valid ScopePolicy".toList
  | .noCount => "'<=' not supported between instances of 'list' and 'int'".toList
  | .fault f => f.message.toList
  | .misfit m => m.message

/-- The files at hand, by name. -/
abbrev Files := Text → Except FileTrouble Text

def usage : Text :=
  "usage: playground [-h] [--step STEP] [--json] [--explain] [--llm PROVIDER]
                  [--model MODEL] [--scope \x7bisolated,write_back\x7d] [--verbose]
                  [file]
".toList

def errorLine (e : UsageError) : Text := "playground: error: ".toList ++ e.message ++ ['\n']

namespace Options

/-- The configuration of the run. There is none where no scope policy was given. -/
def config (o : Options) : Except Stop Config :=
  match o.scope with
  | .value policy => .ok { scope := policy, verbose := o.verbose }
  | .nothing => .error .noScope

/-- The source to trace and what is printed about it first. An empty file name counts
as none. -/
def source (o : Options) (files : Files) : Except Stop (Text × Text) :=
  match o.file.filter (!·.isEmpty) with
  | none => .ok (demoSource,
      "No file provided. Using built-in demo:\n\n".toList ++ demoSource ++ ['\n'])
  | some name => match files name with
    | .ok content => .ok (Text.unifyNewlines content, [])
    | .error trouble => .error (.file trouble name)

def briefLines (r : StepRecord) : List Text :=
  ("line ".toList ++ Text.ofInt r.lineNumber ++ ": ".toList ++ Text.trim r.source) ::
    r.outputLines.map ("  > ".toList ++ ·)

/-- The output for a limited number of steps. -/
def printSteps (o : Options) (config : Config) (records : List StepRecord) : Text :=
  config.transcript records ++
    if o.json then (Json.array (records.map StepRecord.toJson)).pretty ++ ['\n']
    else Text.unlines (records.flatMap briefLines)

/-- The output for a whole trace. -/
def printTrace (o : Options) (config : Config) (t : Trace) : Text :=
  config.transcript t.records ++
    if o.json then t.exportJson ++ ['\n']
    else Text.unlines (["═══ Trace ═══".toList, t.dump, [], "═══ Console ═══".toList] ++
      t.output.map ("> ".toList ++ ·) ++ [[], t.stats.report])

/-- Explains the steps as the options ask for it. -/
def explained (o : Options) (replies : List (Option Text)) (t : Trace) : Except Misfit Trace :=
  match o.llm with
  | some _ => (Tutor.narrate Tutor.maxTokens replies t.records).map fun n =>
      { t with records := n.records }
  | none =>
    if o.explain then (explainRecords t.records).map fun records => { t with records := records }
    else .ok t

def execute (o : Options) (files : Files) (replies : List (Option Text)) :
    Except Stop Outcome := do
  let (source, preface) ← o.source files
  let config ← o.config
  match o.step with
  | some .nothing => .error .noCount
  | some (.value count) =>
    let records ← (firstSteps config source count).mapError Stop.fault
    .ok { stdout := preface ++ o.printSteps config records }
  | none =>
    let t ← (Trace.ofSource config source).mapError Stop.fault
    let t ← (o.explained replies t).mapError Stop.misfit
    .ok { stdout := preface ++ o.printTrace config t, narrator := o.llm.map (·, o.model) }

end Options

/-- Carries out a command line over the files that can be read and the replies that
the chat model will give. -/
def run (files : Files) (replies : List (Option Text)) (argv : List Text) :
    Except Stop Outcome :=
  match read argv with
  | .help => .ok { stdout := usage }
  | .refused e => .ok { exitCode := 2, stderr := usage ++ errorLine e }
  | .run o => o.execute files replies

end SnippetTutor.CommandLine
