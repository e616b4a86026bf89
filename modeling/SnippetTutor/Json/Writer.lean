import SnippetTutor.Json.Basic
import SnippetTutor.Number.Notation
import SnippetTutor.Text.Quoted

/-! # Writing a JSON document

The output is ASCII alone: all other characters are escaped by their UTF-16 units.
A document is written on one line, or with each item on a line of its own, indented
by two blanks for each level.
-/
namespace SnippetTutor.Json

def escapeUnit (n : Nat) : Text := '\\' :: 'u' :: Text.hexDigits 4 n

def escapeChar (c : Char) : Text :=
  if c = '"' ∨ c = '\\' then ['\\', c]
  else if c = '\n' then ['\\', 'n']
  else if c = '\r' then ['\\', 'r']
  else if c = '\t' then ['\\', 't']
  else if c = '\x08' then ['\\', 'b']
  else if c = '\x0c' then ['\\', 'f']
  else if 0x20 ≤ c.toNat ∧ c.toNat < 0x7f then [c]
  else if c.toNat < 0x10000 then escapeUnit c.toNat
  else escapeUnit (0xd800 + (c.toNat - 0x10000) / 0x400) ++
    escapeUnit (0xdc00 + (c.toNat - 0x10000) % 0x400)

def writeText (t : Text) : Text := '"' :: t.flatMap escapeChar ++ ['"']

def writeNumber : Number → Text
  | .nan => "NaN".toList
  | .infinite negative => Number.writeSign negative ++ "Infinity".toList
  | x => x.write

/-- How the items of an array or object are set apart: none on one line, or the depth
of the line that opens them. -/
abbrev Layout := Option Nat

def Layout.inner : Layout → Layout := Option.map (· + 1)

def newline (depth : Nat) : Text := '\n' :: List.replicate (2 * depth) ' '

/-- What stands before the first item, between items, and after the last one. -/
def Layout.before : Layout → Text
  | none => []
  | some depth => newline (depth + 1)

def Layout.between : Layout → Text
  | none => [',', ' ']
  | some depth => ',' :: newline (depth + 1)

def Layout.after : Layout → Text
  | none => []
  | some depth => newline depth

def enclose (layout : Layout) (opening closing : Char) (items : List Text) : Text :=
  if items.isEmpty then [opening, closing]
  else opening :: layout.before ++ Text.joinWith layout.between items ++ layout.after ++ [closing]

mutual

def render (layout : Layout) : Json → Text
  | .null => "null".toList
  | .bool b => if b then "true".toList else "false".toList
  | .int n => Text.ofInt n
  | .number x => writeNumber x
  | .text t => writeText t
  | .array items => enclose layout '[' ']' (renderItems layout.inner items)
  | .object fields => enclose layout '\x7b' '\x7d' (renderFields layout.inner fields)

def renderItems (layout : Layout) : List Json → List Text
  | [] => []
  | item :: rest => render layout item :: renderItems layout rest

def renderFields (layout : Layout) : List (Text × Json) → List Text
  | [] => []
  | (key, value) :: rest =>
    (writeText key ++ [':', ' '] ++ render layout value) :: renderFields layout rest

end

/-- The document on one line. -/
def compact (j : Json) : Text := render none j

/-- The document with one item on each line. -/
def pretty (j : Json) : Text := render (some 0) j

end SnippetTutor.Json
