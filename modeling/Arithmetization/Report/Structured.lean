import Arithmetization.Analysis
import Arithmetization.Json

/-! # Reports as JSON

Numbers that may be large are written as decimal texts. A record with one member, named for the
kind of its root, stands for an expression.
-/

namespace Arithmetization

/-- A symbol as a JSON text. -/
def Symbol.toJson (symbol : Symbol) : Json := .text symbol.text

/-- The symbol that a JSON document holds: a text of one character of the alphabet. No symbol is
written by one of the short escapes, so only the character itself and its code point count. -/
def Symbol.ofJson? (document : String) : Option Symbol :=
  let trimmed := (document.toList.dropWhile Json.isBlank).reverse.dropWhile Json.isBlank
  match trimmed.reverse with
  | ['"', c, '"'] => ofChar? c
  | ['"', '\\', 'u', a, b, c, d, '"'] => (Text.hexChar? [a, b, c, d]).bind ofChar?
  | _ => none

namespace Report

/-- A symbol or nothing. -/
def optionalSymbol (symbol : Option Symbol) : Json := symbol.elim .null Symbol.toJson

/-- The name of an operator in a report. -/
def operatorName : Operator → String
  | .disjunction => "Or"
  | .conjunction => "And"
  | .implication => "Implies"
  | .equivalence => "Iff"
  | .equality => "Equal"
  | .addition => "Add"
  | .multiplication => "Mul"

/-- The name of a quantifier in a report. -/
def quantifierName : Quantifier → String
  | .universal => "Universal"
  | .existential => "Existential"

/-- An expression as nested records. -/
def expressionJson : Expression → Json
  | .atom symbol => .record [("Atom", optionalSymbol symbol)]
  | .successor operand => .record [("Successor", expressionJson operand)]
  | .negation operand =>
    .record [("Unary", .record [("operator", .text "Not"), ("operand", expressionJson operand)])]
  | .binary op left right =>
    .record [("Binary", .record [("operator", .text (operatorName op)),
      ("left", expressionJson left), ("right", expressionJson right)])]
  | .quantified q bound body =>
    .record [("Quantifier", .record [("kind", .text (quantifierName q)),
      ("variable", optionalSymbol bound), ("body", expressionJson body)])]

/-- A step as a record. -/
def stepJson (step : Step) : Json :=
  .record [("index", .number step.index), ("kind", .text step.kind.name),
    ("label", .text step.label), ("description", .text step.description),
    ("inputs", .list (step.inputs.map .number))]

/-- An item as a record. -/
def itemJson (item : Item) : Json :=
  .record [("symbol", .text (String.singleton item.char)), ("code", .number item.code),
    ("prime", .number item.prime), ("factor", .text (Decimal.text item.factor))]

/-- An encoding as a record. -/
def encodingJson (encoding : Encoding) : Json :=
  .record [("items", .list (encoding.items.map itemJson)),
    ("godel_number", .text (Decimal.text encoding.number))]

/-- An analysis as a record. -/
def analysisValue (analysis : Analysis) : Json :=
  .record [("formula", .text analysis.formula),
    ("tokens", .list (analysis.symbols.map Symbol.toJson)),
    ("consumed", .number analysis.consumed), ("ast", expressionJson analysis.root),
    ("steps", .list (analysis.steps.map stepJson)), ("encoding", encodingJson analysis.encoding)]

/-- The report on an analysis. -/
def analysisJson (analysis : Analysis) : String := (analysisValue analysis).pretty 0

/-- The report on a decoded number. -/
def decodedJson (number formula : String) : String :=
  (Json.record [("number", .text number), ("formula", .text formula)]).pretty 0

end Report

end Arithmetization
