import SnippetTutor.Statement.Comment
import SnippetTutor.Statement.Shape

/-! # Statements

Each source line is one statement. An indented line that is neither blank nor a
comment belongs to a function body, whatever its text looks like.
-/
namespace SnippetTutor

inductive StatementKind
  | blank
  | comment
  | assignment
  | printCall
  | functionHeader
  | functionBodyLine
  | methodCall
  | plainCall
  | unrecognized
deriving DecidableEq, Inhabited

def StatementKind.label : StatementKind → Text
  | .blank => "BLANK".toList
  | .comment => "COMMENT".toList
  | .assignment => "ASSIGNMENT".toList
  | .printCall => "PRINT_CALL".toList
  | .functionHeader => "FUNCTION_HEADER".toList
  | .functionBodyLine => "FUNCTION_BODY_LINE".toList
  | .methodCall => "METHOD_CALL".toList
  | .plainCall => "PLAIN_CALL".toList
  | .unrecognized => "UNRECOGNIZED".toList

/-- The label in small letters. -/
def StatementKind.caption (kind : StatementKind) : Text := kind.label.map Text.lowerLetter

def StatementKind.all : List StatementKind :=
  [.blank, .comment, .assignment, .printCall, .functionHeader, .functionBodyLine, .methodCall,
    .plainCall, .unrecognized]

def Shape.kind : Shape → StatementKind
  | .header _ _ => .functionHeader
  | .assignment _ _ => .assignment
  | .print _ => .printCall
  | .method _ _ _ => .methodCall
  | .call _ _ => .plainCall
  | .unrecognized => .unrecognized

/-- A classified line. The text is trimmed and, except for a comment line, freed of
its comment. -/
inductive Statement
  | blank
  | comment (text : Text)
  | bodyLine (text : Text)
  | shaped (text : Text) (shape : Shape)
deriving DecidableEq, Inhabited

namespace Statement

/-- The statement of a text that is already trimmed. -/
def ofText (text : Text) : Statement := .shaped text (Shape.ofText text)

def ofLine (marker line : Text) : Statement :=
  let trimmed := Text.trim line
  if trimmed.isEmpty then .blank
  else if marker.isPrefixOf trimmed then .comment trimmed
  else
    let text := uncomment marker trimmed
    if isIndented line then .bodyLine text else ofText text

def kind : Statement → StatementKind
  | .blank => .blank
  | .comment _ => .comment
  | .bodyLine _ => .functionBodyLine
  | .shaped _ shape => shape.kind

def text : Statement → Text
  | .blank => []
  | .comment text | .bodyLine text | .shaped text _ => text

def parts : Statement → List Text
  | .shaped _ shape => shape.parts
  | _ => []

def isSkipped : Statement → Bool
  | .blank | .comment _ => true
  | _ => false

end Statement

end SnippetTutor
