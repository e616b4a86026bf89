import SnippetTutor.Machine.Basic
import SnippetTutor.Narration.Provider
import SnippetTutor.Text.Digit
import SnippetTutor.Text.Quoted

/-! # Command-line options

Long options may be cut short as long as they stay unambiguous, and take a value
after an equals sign or as the next word. Short options may be run together. Words
after a double dash are no options, and a negative number is none either.
-/
namespace SnippetTutor.CommandLine

/-- What an option was given: a value, or nothing where a lone double dash stood in
the place of the value in the same word. -/
inductive Given (α : Type)
  | value (a : α)
  | nothing
deriving DecidableEq, Inhabited

structure Options where
  file : Option Text := none
  step : Option (Given Int) := none
  json : Bool := false
  explain : Bool := false
  llm : Option Provider := none
  model : Given Text := .value []
  scope : Given ScopePolicy := .value .isolated
  verbose : Bool := false
deriving DecidableEq, Inhabited

inductive Switch
  | help
  | step
  | json
  | explain
  | llm
  | model
  | scope
  | verbose
deriving DecidableEq, Inhabited

namespace Switch

def all : List Switch := [.help, .step, .json, .explain, .llm, .model, .scope, .verbose]

def spellings : Switch → List Text
  | .help => ["-h".toList, "--help".toList]
  | .step => ["--step".toList, "-s".toList]
  | .json => ["--json".toList]
  | .explain => ["--explain".toList]
  | .llm => ["--llm".toList]
  | .model => ["--model".toList]
  | .scope => ["--scope".toList]
  | .verbose => ["--verbose".toList, "-v".toList]

def takesValue : Switch → Bool
  | .step | .llm | .model | .scope => true
  | .help | .json | .explain | .verbose => false

/-- All spellings with their switches, in the order of declaration. -/
def table : List (Text × Switch) :=
  all.flatMap fun s => s.spellings.map fun spelling => (spelling, s)

def ofSpelling? (t : Text) : Option Switch := Fields.get? table t

def title (s : Switch) : Text := Text.joinWith ['/'] s.spellings

end Switch

inductive UsageError
  | ambiguous (word : Text) (candidates : List Text)
  | missingValue (s : Switch)
  | needlessValue (s : Switch) (value : Text)
  | notInteger (s : Switch) (value : Text)
  | notAmong (s : Switch) (value : Text) (choices : List Text)
  | unrecognized (words : List Text)
deriving DecidableEq, Inhabited

namespace UsageError

def about (s : Switch) (complaint : Text) : Text :=
  "argument ".toList ++ s.title ++ ": ".toList ++ complaint

def message : UsageError → Text
  | .ambiguous word candidates =>
    "ambiguous option: ".toList ++ word ++ " could match ".toList ++
      Text.joinWith ", ".toList candidates
  | .missingValue s => about s "expected one argument".toList
  | .needlessValue s value => about s ("ignored explicit argument ".toList ++ Text.quoted value)
  | .notInteger s value => about s ("invalid int value: ".toList ++ Text.quoted value)
  | .notAmong s value choices =>
    about s ("invalid choice: ".toList ++ Text.quoted value ++ " (choose from ".toList ++
      Text.joinWith ", ".toList (choices.map Text.quoted) ++ [')'])
  | .unrecognized words => "unrecognized arguments: ".toList ++ Text.joinWith [' '] words

end UsageError

/-- What a word is taken for. An option may have a value in the same word, and the
divider, a double dash, makes all words after it plain. -/
inductive Word
  | plain (t : Text)
  | unknown (t : Text)
  | option (s : Switch) (spelling : Text) (attached : Option Text)
  | divider (after : List Text)
deriving DecidableEq, Inhabited

namespace Word

/-- The word up to an equals sign, and what follows the sign. -/
def splitEquals (t : Text) : Text × Option Text :=
  match t.dropWhile (· ≠ '=') with
  | [] => (t, none)
  | _ :: value => (t.takeWhile (· ≠ '='), some value)

/-- The options that a word may be short for. -/
def candidates (t : Text) : List (Text × Switch × Option Text) :=
  if "--".toList.isPrefixOf t then
    let (stem, value) := splitEquals t
    (Switch.table.filter fun entry => stem.isPrefixOf entry.1).map fun (spelling, s) =>
      (spelling, s, value)
  else Switch.table.filterMap fun (spelling, s) =>
    if spelling = t.take 2 then some (spelling, s, some (t.drop 2))
    else if t.isPrefixOf spelling then some (spelling, s, none)
    else none

def allDigits (t : Text) : Bool := t.all fun c => (Text.digit? c).isSome

/-- A final line feed does not count. -/
def isNegativeNumber (t : Text) : Bool :=
  match Text.dropFinalNewline t with
  | '-' :: rest =>
    let whole := rest.takeWhile fun c => (Text.digit? c).isSome
    match rest.drop whole.length with
    | [] => !whole.isEmpty
    | '.' :: fraction => !fraction.isEmpty && allDigits fraction
    | _ => false
  | _ => false

/-- A word with a dash in front that is no exact spelling of an option. -/
def ofInexact (t : Text) : Except UsageError Word :=
  match candidates t with
  | [] => .ok (if isNegativeNumber t || t.contains ' ' then .plain t else .unknown t)
  | [(spelling, s, attached)] => .ok (.option s spelling attached)
  | several => .error (.ambiguous t (several.map (·.1)))

def ofText (t : Text) : Except UsageError Word :=
  if t.head? ≠ some '-' then .ok (.plain t)
  else match Switch.ofSpelling? t with
    | some s => .ok (.option s t none)
    | none =>
      if t.length = 1 then .ok (.plain t)
      else match splitEquals t with
        | (stem, some value) => match Switch.ofSpelling? stem with
          | some s => .ok (.option s stem (some value))
          | none => ofInexact t
        | (_, none) => ofInexact t

/-- The words of a command line. -/
def ofTexts : List Text → Except UsageError (List Word)
  | [] => .ok []
  | t :: rest =>
    if t = "--".toList then .ok [.divider rest]
    else do .ok ((← ofText t) :: (← ofTexts rest))

end Word

/-- The state of a parse: the options so far, whether the file name has been given or
passed over, the words that nothing could be done with, and a request for help. -/
structure Progress where
  options : Options := {}
  fileSeen : Bool := false
  extras : List Text := []
  help : Bool := false
deriving DecidableEq, Inhabited

namespace Progress

/-- Words that nothing can be done with. -/
def leave (p : Progress) (ts : List Text) : Progress := { p with extras := p.extras ++ ts }

def takeFile (p : Progress) (t : Text) : Progress :=
  { p with options := { p.options with file := some t }, fileSeen := true }

/-- Turns a switch on. -/
def turnOn (p : Progress) : Switch → Progress
  | .help => { p with help := true }
  | .json => { p with options := { p.options with json := true } }
  | .explain => { p with options := { p.options with explain := true } }
  | .verbose => { p with options := { p.options with verbose := true } }
  | .step | .llm | .model | .scope => p

/-- Sets a switch to a value. -/
def setValue (p : Progress) (s : Switch) (t : Text) : Except UsageError Progress :=
  let o := p.options
  match s with
  | .model => .ok { p with options := { o with model := .value t } }
  | .step => match Text.readInt? t with
    | some n => .ok { p with options := { o with step := some (.value n) } }
    | none => .error (.notInteger s t)
  | .llm => match Provider.ofName? t with
    | some provider => .ok { p with options := { o with llm := some provider } }
    | none => .error (.notAmong s t Provider.names)
  | .scope => match ScopePolicy.ofLabel? t with
    | some policy => .ok { p with options := { o with scope := .value policy } }
    | none => .error (.notAmong s t (ScopePolicy.all.map ScopePolicy.label))
  | .help | .json | .explain | .verbose => .ok p

/-- Sets a switch that was given nothing. No chat model is asked for then. -/
def setNothing (p : Progress) : Switch → Progress
  | .model => { p with options := { p.options with model := .nothing } }
  | .step => { p with options := { p.options with step := some .nothing } }
  | .llm => { p with options := { p.options with llm := none } }
  | .scope => { p with options := { p.options with scope := .nothing } }
  | .help | .json | .explain | .verbose => p

/-- Sets a switch, with what it was given if it takes a value. -/
def set (p : Progress) (s : Switch) (given : Given Text) : Except UsageError Progress :=
  if s.takesValue then
    match given with
    | .value t => p.setValue s t
    | .nothing => .ok (p.setNothing s)
  else .ok (p.turnOn s)

end Progress

/-- What a word of options comes to: switches that are complete, and then possibly a
switch that waits for the next word. -/
structure Cluster where
  complete : List (Switch × Given Text) := []
  waiting : Option Switch := none
deriving DecidableEq, Inhabited

namespace Cluster

def before (s : Switch) (c : Cluster) : Cluster :=
  { c with complete := (s, .nothing) :: c.complete }

/-- An option without an attached value. -/
def bare (s : Switch) : Cluster :=
  if s.takesValue then { waiting := some s } else { complete := [(s, .nothing)] }

/-- An option that takes the attached value. -/
def valued (s : Switch) (t : Text) : Cluster :=
  { complete := [(s, if t = "--".toList then .nothing else .value t)] }

/-- A short switch without a value that is followed by more characters: these are
further short switches, the last of which may take the rest as its value. -/
def more (s : Switch) : Text → Except UsageError Cluster
  | [] => .error (.needlessValue s [])
  | c :: rest =>
    match Switch.ofSpelling? ['-', c] with
    | none => .error (.needlessValue s (c :: rest))
    | some next =>
      if rest.isEmpty then .ok ((bare next).before s)
      else if next.takesValue then .ok ((valued next rest).before s)
      else (more next rest).map (before s)

def ofOption (s : Switch) (spelling : Text) : Option Text → Except UsageError Cluster
  | none => .ok (bare s)
  | some t =>
    if s.takesValue then .ok (valued s t)
    else if "--".toList.isPrefixOf spelling then .error (.needlessValue s t)
    else more s t

end Cluster

/-- Sets the complete switches in turn. After a request for help nothing counts. -/
def setAll : List (Switch × Given Text) → Progress → Except UsageError Progress
  | [], p => .ok p
  | (s, given) :: rest, p =>
    if p.help then .ok p else do setAll rest (← p.set s given)

/-- Goes over the words. The first plain word is the file, and a divider next to it is
passed over; elsewhere a divider is left over once the file is known. -/
def consume : List Word → Progress → Except UsageError Progress
  | [], p => .ok p
  | word :: rest, p =>
    if p.help then .ok p
    else match word with
      | .unknown t => consume rest (p.leave [t])
      | .plain t =>
        if p.fileSeen then consume rest (p.leave [t])
        else match rest with
          | .divider after :: _ => .ok ((p.takeFile t).leave after)
          | _ => consume rest (p.takeFile t)
      | .divider after =>
        if p.fileSeen then .ok (p.leave ("--".toList :: after))
        else match after with
          | [] => .ok { p with fileSeen := true }
          | t :: more => .ok ((p.takeFile t).leave more)
      | .option s spelling attached => do
        let cluster ← Cluster.ofOption s spelling attached
        match cluster.waiting with
        | none => consume rest (← setAll cluster.complete p)
        | some waiting => match rest with
          | .plain t :: tail => consume tail (← setAll (cluster.complete ++ [(waiting, .value t)]) p)
          | _ => .error (.missingValue waiting)

/-- The outcome of reading a command line. -/
inductive Request
  | run (o : Options)
  | help
  | refused (e : UsageError)
deriving DecidableEq, Inhabited

def read (argv : List Text) : Request :=
  match (Word.ofTexts argv).bind (consume · {}) with
  | .error e => .refused e
  | .ok p =>
    if p.help then .help
    else if p.extras.isEmpty then .run p.options
    else .refused (.unrecognized p.extras)

end SnippetTutor.CommandLine
