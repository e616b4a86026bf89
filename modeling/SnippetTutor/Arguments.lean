import SnippetTutor.Statement.Quote

/-! # Argument texts

An argument text is cut at the commas outside quotes and outside brackets. A closing
bracket without an opening one does not count.
-/
namespace SnippetTutor.Arguments

def depthAfter (depth : Nat) (c : Char) : Nat :=
  if c = '(' ∨ c = '[' ∨ c = '\x7b' then depth + 1
  else if c = ')' ∨ c = ']' ∨ c = '\x7d' then depth - 1
  else depth

/-- The untrimmed pieces between the separating commas; there is always one. -/
def pieces : Quote → Nat → Text → List Text
  | _, _, [] => [[]]
  | quote, depth, c :: rest =>
    if quote.isNone ∧ depth = 0 ∧ c = ',' then [] :: pieces none 0 rest
    else Text.consHead c
      (pieces (quote.after c) (if quote.isPlain c then depthAfter depth c else depth) rest)

/-- The trimmed pieces; a blank text has none. -/
def split (t : Text) : List Text :=
  if (Text.trim t).isEmpty then [] else (pieces none 0 t).map Text.trim

/-- A parameter is written with an annotation or a default after its name. -/
def paramName (part : Text) : Text := Text.trim (part.takeWhile fun c => c ≠ '=' ∧ c ≠ ':')

def params (t : Text) : List Text := ((split t).map paramName).filter (!·.isEmpty)

end SnippetTutor.Arguments
