import SnippetTutor.Literal

/-! # The text of a print statement

A quoted literal prints its content and a known name its value. A text with a plus
sign is a sum: its parts are resolved one by one and joined. Numbers and keywords
print as they are written. Anything else is reported as an unknown name.
-/
namespace SnippetTutor.Print

/-- A part of a sum; a part that is neither a literal nor a known name prints as it is
written. -/
def part (memory : Memory) (t : Text) : Text :=
  match Literal.unquote? t with
  | some content => content
  | none => match Fields.get? memory t with
    | some v => v.display
    | none => t

def sum (memory : Memory) (t : Text) : Text :=
  (Text.splitOn '+' t).flatMap fun p => part memory (Text.trim p)

def unknownName (name : Text) : Text := "NameError: name '".toList ++ name ++ "' is not defined".toList

def text (memory : Memory) (argument : Text) : Text :=
  if argument.isEmpty then []
  else match Literal.unquote? argument with
    | some content => content
    | none => match Fields.get? memory argument with
      | some v => v.display
      | none =>
        if '+' ∈ argument then sum memory argument
        else if (Literal.number? argument).isSome || (Literal.keyword? argument).isSome then argument
        else unknownName argument

end SnippetTutor.Print
