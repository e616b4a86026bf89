import SnippetTutor.CommandLine.Run

/-! # The program

Reads the file that the command line names, carries out the command and prints both
outputs. No chat model is at hand here, so templates explain the steps.
-/
namespace SnippetTutor

/-- The content of a file, or why it cannot be read. Code 21 of the operating system says
that the name is a directory's. -/
def readFile (name : String) : IO (Except CommandLine.FileTrouble Text) :=
  try
    let content ← IO.FS.readFile name
    pure (.ok content.toList)
  catch
    | .inappropriateType _ 21 _ => pure (.error .directory)
    | .inappropriateType _ _ _ => pure (.error .notDirectory)
    | .invalidArgument _ _ _ => pure (.error .badName)
    | _ => pure (.error .missing)

/-- The file that a command line names. -/
def fileOf? (argv : List Text) : Option Text :=
  match CommandLine.read argv with
  | .run o => o.file
  | _ => none

end SnippetTutor

open SnippetTutor in
def main (args : List String) : IO UInt32 := do
  let argv := args.map String.toList
  let content ← match fileOf? argv with
    | some name => readFile (String.ofList name)
    | none => pure (.error .missing)
  match CommandLine.run (fun _ => content) [] argv with
  | .ok outcome =>
    IO.print (String.ofList outcome.stdout)
    IO.eprint (String.ofList outcome.stderr)
    pure outcome.exitCode.toUInt32
  | .error stop =>
    IO.eprintln (String.ofList stop.message)
    pure 1
