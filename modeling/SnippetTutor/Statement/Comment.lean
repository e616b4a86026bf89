import SnippetTutor.Statement.Quote

/-! # Comments

A comment starts at the first marker that the quote scan meets outside a literal.
-/
namespace SnippetTutor

/-- What stands before the first marker outside quotes, if there is such a marker. -/
def beforeMarker (marker : Text) : Quote → Text → Option Text
  | _, [] => none
  | quote, c :: rest =>
    if quote.isPlain c ∧ marker.isPrefixOf (c :: rest) then some []
    else (beforeMarker marker (quote.after c) rest).map (c :: ·)

/-- Cuts the comment and the blanks before it; a line without a comment stays as it is. -/
def uncomment (marker line : Text) : Text :=
  match beforeMarker marker none line with
  | some kept => Text.trimRight kept
  | none => line

def isIndented (line : Text) : Bool := Text.startsBlank line

/-- A line that is blank or holds nothing but a comment. -/
def isSkippable (marker line : Text) : Bool :=
  (Text.trim line).isEmpty || marker.isPrefixOf (Text.trim line)

end SnippetTutor
