import Stylesheet.ParseError
import Stylesheet.Value

/-!
# Declarations

A declaration is a property, a colon and a value, which may end in a mark of importance.
The property is any text without blanks.  The value of a custom property, whose name
begins with two hyphens, is kept as it is written.
-/

namespace Stylesheet
namespace Declaration

/-- Whether a token is the word of a mark of importance. -/
def isImportant (token : Token) : Bool :=
  match token.kind with
  | .ident name => sameWord name "important"
  | _ => false

/-- A trimmed value without the mark of importance at its end, and whether there was one. -/
def splitImportant (run : List Token) : List Token × Bool :=
  match (Run.trim run).reverse with
  | word :: earlier =>
      match Run.trimStart earlier with
      | bang :: front =>
          if isImportant word && bang.kind == .delim '!' then
            (Run.trim front.reverse, true)
          else
            (Run.trim run, false)
      | [] => (Run.trim run, false)
  | [] => ([], false)

/-- Whether a text can be a property: it is not empty and holds no blank. -/
def isProperty (text : String) : Bool :=
  !text.isEmpty && text.toList.all fun c => !Character.isBlank c

/-- Whether a property is a custom one. -/
def isCustom (property : String) : Bool :=
  ['-', '-'].isPrefixOf property.toList

/-- The value of a property, without its mark of importance. -/
def value (source : SourceName) (property : String) (run : List Token) : Node :=
  if isCustom property then Node.rawRun source run else Value.ofRun source run

/-- The declaration that covers a run, which begins with a token. -/
def parse (source : SourceName) (first : Token) (rest : List Token) :
    Except ParseError Node :=
  let run := Run.trim (first :: rest)
  match run.dropWhile (·.kind != .colon) with
  | [] => .error (.atToken .missingColon first)
  | _ :: behind =>
      let property := Run.text (Run.trim (run.takeWhile (·.kind != .colon)))
      if isProperty property then
        let (content, important) := splitImportant behind
        .ok (Node.spanning source run
          (.declaration important property (value source property content)))
      else
        .error (.atToken .missingProperty first)

end Declaration
end Stylesheet
