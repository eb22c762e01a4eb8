import Stylesheet.Media
import Stylesheet.Sheet

/-!
# Canonical trees

The trees that a program may build and expect to get back: stylesheets of rules and at-rules whose
names are plain words and whose values are items with one separator between two neighbours.  Each
kind of canonical tree is a type of its own, so that it cannot be built wrongly, and has a node.
-/

namespace Stylesheet
namespace Canonical

open Character Node

/-! ## Words and numbers -/

/-- A character that a word goes on with. -/
def isWordChar (c : Char) : Bool :=
  isLetter c || isDigit c || c == '_' || c == '-'

/-- A letter, and then letters, digits, low lines and hyphens. -/
def isWord (text : List Char) : Bool :=
  match text with
  | [] => false
  | c :: rest => isLetter c && rest.all isWordChar

/-- A word; the letter `u` alone may begin a range and is none. -/
structure Word where
  text : String
  isWord : isWord text.toList = true
  notRange : text ≠ "u" ∧ text ≠ "U"

/-- A text of at least one character of a class. -/
structure Filled (p : Char -> Bool) where
  text : String
  nonempty : text.toList ≠ []
  isFilled : text.toList.all p = true

/-- One or more digits. -/
abbrev Digits :=
  Filled isDigit

/-- One or more letters. -/
abbrev Letters :=
  Filled isLetter

/-- The name of a function that is no address. -/
structure FunctionName extends Word where
  notAddress : sameWord text "url" = false

/-- The at-rules that a canonical tree does not have. -/
def specialRules : List String :=
  "media" :: "custom-media" :: Sheet.declarationRules

/-- The name of an at-rule that holds rules and asks for no media queries. -/
structure AtName extends Word where
  notSpecial : forall name, name ∈ specialRules -> sameWord text name = false

/-! ## Items -/

/-- What stands between two items. -/
inductive Separator where
  | space
  | comma

/-- The node of a separator. -/
def Separator.node : Separator -> Node
  | space => ofConstruct (.whiteSpace " ")
  | comma => ofConstruct (.operator ",")

mutual

inductive Item where
  | identifier (word : Word)
  | number (digits : Digits)
  | percentage (digits : Digits)
  | dimension (digits : Digits) (unit : Letters)
  | hash (word : Word)
  | function (name : FunctionName) (items : Items)
  | parentheses (items : Items)

inductive Items where
  | empty
  | row (row : Row)

/-- One or more items with a separator between two neighbours. -/
inductive Row where
  | last (item : Item)
  | cons (item : Item) (separator : Separator) (rest : Row)

end

mutual

def Item.node : Item -> Node
  | .identifier word => ofConstruct (.identifier word.text)
  | .number digits => ofConstruct (.number digits.text)
  | .percentage digits => ofConstruct (.percentage digits.text)
  | .dimension digits unit => ofConstruct (.dimension digits.text unit.text)
  | .hash word => ofConstruct (.hash word.text)
  | .function name items => ofConstruct (.function name.text items.nodes)
  | .parentheses items => ofConstruct (.parentheses items.nodes)

def Items.nodes : Items -> List Node
  | .empty => []
  | .row row => row.nodes

def Row.nodes : Row -> List Node
  | .last item => [item.node]
  | .cons item separator rest => item.node :: separator.node :: rest.nodes

end

/-! ## Selectors -/

/-- A type selector: the asterisk or a word. -/
inductive TypeName where
  | any
  | word (name : Word)

def TypeName.node : TypeName -> Node
  | any => ofConstruct (.typeSelector "*")
  | .word name => ofConstruct (.typeSelector name.text)

/-- A class selector or an id selector. -/
inductive Mark where
  | ofClass (name : Word)
  | ofId (name : Word)

def Mark.node : Mark -> Node
  | ofClass name => ofConstruct (.classSelector name.text)
  | ofId name => ofConstruct (.idSelector name.text)

/-- Simple selectors without anything between them. -/
inductive Compound where
  | typed (type : TypeName) (marks : List Mark)
  | marked (first : Mark) (rest : List Mark)

def Compound.nodes : Compound -> List Node
  | typed type marks => type.node :: marks.map Mark.node
  | marked first rest => first.node :: rest.map Mark.node

/-- A combinator. -/
inductive Joint where
  | descendant
  | child
  | next
  | later

def Joint.name : Joint -> String
  | descendant => " "
  | child => ">"
  | next => "+"
  | later => "~"

def Joint.node (joint : Joint) : Node :=
  ofConstruct (.combinator joint.name)

/-- Compounds with combinators between them. -/
structure Chain where
  first : Compound
  rest : List (Joint × Compound)

/-- The nodes of a combinator and the compound behind it. -/
def joinedNodes (joined : Joint × Compound) : List Node :=
  joined.1.node :: joined.2.nodes

def Chain.nodes (selector : Chain) : List Node :=
  selector.first.nodes ++ selector.rest.flatMap joinedNodes

def Chain.node (selector : Chain) : Node :=
  ofConstruct (.selector selector.nodes)

/-! ## Statements -/

/-- A declaration. -/
structure Assignment where
  property : Word
  important : Bool
  value : Items

def Assignment.node (assignment : Assignment) : Node :=
  ofConstruct (.declaration assignment.important assignment.property.text
    (ofConstruct (.value assignment.value.nodes)))

/-- A rule: its selectors, of which there is one at least, and its declarations. -/
structure Ruleset where
  first : Chain
  rest : List Chain
  assignments : List Assignment

def Ruleset.selectors (rule : Ruleset) : List Node :=
  (rule.first :: rule.rest).map Chain.node

def Ruleset.node (rule : Ruleset) : Node :=
  ofConstruct (.rule (ofConstruct (.selectorList rule.selectors))
    (ofConstruct (.block (rule.assignments.map Assignment.node))))

/-- The prelude of an at-rule. -/
def Row.prelude (row : Row) : Node :=
  ofConstruct (.atRulePrelude row.nodes)

/-- A rule or an at-rule, which may have a prelude and a block of statements. -/
inductive Statement where
  | rule (rule : Ruleset)
  | bare (name : AtName) (prelude : Option Row)
  | nested (name : AtName) (prelude : Option Row) (block : List Statement)

mutual

def Statement.node : Statement -> Node
  | .rule rule => rule.node
  | .bare name prelude => ofConstruct (.atRule name.text (prelude.map Row.prelude) none)
  | .nested name prelude block =>
      ofConstruct (.atRule name.text (prelude.map Row.prelude)
        (some (ofConstruct (.block (statementNodes block)))))

def statementNodes : List Statement -> List Node
  | [] => []
  | statement :: rest => statement.node :: statementNodes rest

end

/-- The stylesheet of a row of statements. -/
def sheet (statements : List Statement) : Node :=
  ofConstruct (.styleSheet (statementNodes statements))

end Canonical
end Stylesheet
