import SnippetTutor.Text.Basic

/-! # Lines of a text

A line ends at a line feed, a carriage return (with or without a line feed after
it), a vertical tab, a form feed, one of the separators U+001C to U+001E, a next
line, or a line or paragraph separator. A text that ends with such a mark has no
empty line after it.
-/
namespace SnippetTutor.Text

def lineBreakPoints : Intervals :=
  [(0xa, 0xd), (0x1c, 0x1e), (0x85, 0x85), (0x2028, 0x2029)]

def isLineBreak (c : Char) : Bool := lineBreakPoints.has c.toNat

def lines : Text → List Text
  | '\r' :: '\n' :: rest => [] :: lines rest
  | c :: rest => if isLineBreak c then [] :: lines rest else consHead c (lines rest)
  | [] => []

/-- The text that lines make when each one ends with a line feed. -/
def unlines (lines : List Text) : Text := lines.flatMap (· ++ ['\n'])

/-- Every carriage return, alone or before a line feed, becomes a line feed. -/
def unifyNewlines : Text → Text
  | '\r' :: '\n' :: rest => '\n' :: unifyNewlines rest
  | '\r' :: rest => '\n' :: unifyNewlines rest
  | c :: rest => c :: unifyNewlines rest
  | [] => []

end SnippetTutor.Text
