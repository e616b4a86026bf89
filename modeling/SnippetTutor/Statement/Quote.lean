import SnippetTutor.Text.Basic

/-! # The quote scan

A scan from left to right is inside a quoted literal from an opening quote to the
next quote of the same kind. There are no escapes. The comment cut, the argument
split and the nesting count all follow this scan.
-/
namespace SnippetTutor

/-- The quote of the literal that the scan is inside, if it is inside one. -/
abbrev Quote := Option Char

def isQuote (c : Char) : Bool := c = '\'' || c = '"'

namespace Quote

def after : Quote → Char → Quote
  | some q, c => if c = q then none else some q
  | none, c => if isQuote c then some c else none

/-- Whether a character counts as plain text when it is met in this state. -/
def isPlain (quote : Quote) (c : Char) : Bool := quote.isNone && !isQuote c

/-- The state after a whole text. -/
def afterText (quote : Quote) (t : Text) : Quote := t.foldl after quote

end Quote

end SnippetTutor
