import Stylesheet.Text.Character
import Stylesheet.Text.Place

/-!
# Tokens

A token is a piece of a source: what it is, the characters it covers and where it
begins.  The characters of all tokens, one after another, are the source itself, so
the text of a run of tokens needs no look at the source.
-/

namespace Stylesheet

/--
What a token is.  Names, strings and numbers keep the spelling of the source: escapes
are not resolved, quotes are not removed, numbers are not evaluated.
-/
inductive TokenKind where
  | ident (name : String)
  | function (name : String)
  | atKeyword (name : String)
  | hash (name : String)
  | string (quoted : String)
  | url (content : String)
  | number (value : String)
  | percentage (value : String)
  | dimension (value : String) (unit : String)
  | unicodeRange (range : String)
  | whitespace
  | comment (content : String)
  | cdo
  | cdc
  | colon
  | semicolon
  | comma
  | leftBrace
  | rightBrace
  | leftParen
  | rightParen
  | leftBracket
  | rightBracket
  | delim (c : Char)
  | eof
deriving DecidableEq, Repr

namespace TokenKind

/-- Whitespace and comments: tokens that only keep other tokens apart. -/
def isTrivia : TokenKind -> Bool
  | whitespace => true
  | comment _ => true
  | _ => false

/-- Tokens that begin a group; an unquoted address is closed within its own token. -/
def isOpener : TokenKind -> Bool
  | function _ => true
  | leftParen => true
  | leftBracket => true
  | leftBrace => true
  | _ => false

/-- Tokens that end a group. -/
def isCloser : TokenKind -> Bool
  | rightParen => true
  | rightBracket => true
  | rightBrace => true
  | _ => false

/--
The one spelling of a token of this kind.  Whitespace, and an unquoted address with its
optional spaces, have several.
-/
def spelling? : TokenKind -> Option String
  | ident name => some name
  | function name => some (name ++ "(")
  | atKeyword name => some ("@" ++ name)
  | hash name => some ("#" ++ name)
  | string quoted => some quoted
  | url _ => none
  | number value => some value
  | percentage value => some (value ++ "%")
  | dimension value unit => some (value ++ unit)
  | unicodeRange range => some range
  | whitespace => none
  | comment content => some ("/*" ++ content ++ "*/")
  | cdo => some "<!--"
  | cdc => some "-->"
  | colon => some ":"
  | semicolon => some ";"
  | comma => some ","
  | leftBrace => some "\x7b"
  | rightBrace => some "\x7d"
  | leftParen => some "("
  | rightParen => some ")"
  | leftBracket => some "["
  | rightBracket => some "]"
  | delim c => some (String.singleton c)
  | eof => some ""

theorem isCloser_of_isOpener {kind : TokenKind} (h : kind.isOpener = true) :
    kind.isCloser = false := by
  cases kind <;> simp_all [isOpener, isCloser]

end TokenKind

/-- A piece of a source. -/
structure Token where
  kind : TokenKind
  text : String
  start : Position
deriving DecidableEq, Repr

namespace Token

/-- Where the token ends. -/
def stop (token : Token) : Position :=
  token.start.after token.text.toList

def isTrivia (token : Token) : Bool := token.kind.isTrivia

def isOpener (token : Token) : Bool := token.kind.isOpener

def isCloser (token : Token) : Bool := token.kind.isCloser

end Token

end Stylesheet
