import Stylesheet.Token.Stream

/-!
# Parse errors

The parser keeps what it does not understand, so only five things stop it: a source that
has no tokens, and four places where the structure of a stylesheet breaks down.
-/

namespace Stylesheet

/-- Why a source is no stylesheet. -/
inductive ParseFault where
  | lexical (fault : LexFault)
  | missingBlock
  | strayBrace
  | missingColon
  | missingProperty
deriving DecidableEq, Repr

/-- A source that is no stylesheet: why, and where. -/
structure ParseError where
  fault : ParseFault
  position : Position
deriving DecidableEq, Repr

namespace ParseFault

/-- The wording of a fault. -/
def text : ParseFault -> String
  | lexical fault => fault.text
  | missingBlock => "Expected '\x7b'"
  | strayBrace => "Unexpected '\x7d'"
  | missingColon => "Expected ':' after property"
  | missingProperty => "Expected property name"

end ParseFault

namespace ParseError

/-- A fault at the start of a token. -/
def atToken (fault : ParseFault) (token : Token) : ParseError :=
  ⟨fault, token.start⟩

/-- A source without tokens, as the parser reports it. -/
def ofLexError (error : LexError) : ParseError :=
  ⟨.lexical error.fault, error.position⟩

def message (error : ParseError) : String :=
  s!"Parse error at line {error.position.line}, column {error.position.column}: {error.fault.text}"

end ParseError

end Stylesheet
