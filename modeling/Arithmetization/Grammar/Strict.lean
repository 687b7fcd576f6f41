import Arithmetization.Decimal
import Arithmetization.Grammar.Reader
import Arithmetization.Token

/-! # The strict grammar

An expression is a term or an expression, an operator and a term. A term is `0`, a letter, an
expression in parentheses, `¬` or `S` before a term, or a quantifier with a letter before an
expression. A text that does not follow the grammar is refused at the first token that no formula
could have there, or at its end.

Where several ways to read a text fail, the failure that is furthest in the text is the one that is
reported. This is an assumption on the parser combinators that the grammar is written with: with it
there is a single error, and the reader below, which follows all ways at once, finds it.
-/

namespace Arithmetization

/-- Why a text does not follow the grammar. -/
inductive GrammarError where
  /-- No formula begins with the tokens up to and including this one. -/
  | unexpectedToken (found : Symbol) (position : Nat)
  /-- Some formula begins with the text, which ends too early. -/
  | unexpectedEnd (position : Nat)
deriving DecidableEq, Repr

namespace GrammarError

/-- The position that an error points at. -/
def position : GrammarError → Nat
  | unexpectedToken _ position => position
  | unexpectedEnd position => position

/-- The wording of an error. -/
def message : GrammarError → String
  | unexpectedToken found position =>
    "unexpected token `" ++ found.text ++ "` at position " ++ Decimal.text position
  | unexpectedEnd position => "unexpected end of input at position " ++ Decimal.text position

end GrammarError

namespace Strict

open Reader

/-- Takes one symbol, or refuses it because no formula continues with it. -/
def step (reader : Reader) (symbol : Symbol) : Option Reader :=
  match reader.phase, symbol with
  | .term, .opening => some ⟨.term, .parenthesis :: reader.pending⟩
  | .term, .negation => some ⟨.term, .negation :: reader.pending⟩
  | .term, .successor => some ⟨.term, .successor :: reader.pending⟩
  | .term, .quantifier q => some ⟨.bound q, reader.pending⟩
  | .term, .zero => some ⟨.after (.atom (some .zero)), reader.pending⟩
  | .term, .letter v => some ⟨.after (.atom (some (.letter v))), reader.pending⟩
  | .term, _ => none
  | .bound q, .letter v => some ⟨.term, .body q (some (.letter v)) :: reader.pending⟩
  | .bound _, _ => none
  | .after e, .operator op => some (afterOperator op reader.pending e)
  | .after e, .closing => afterParenthesis? reader.pending e
  | .after _, _ => none

/-- The expression of a reader at the end of the text, unless something is still open. -/
def finish? (reader : Reader) : Option Expression :=
  match reader.phase with
  | .after e =>
    match close reader.pending e with
    | ([], whole) => some whole
    | _ => none
  | _ => none

/-- The expression that all tokens of a text of the given length form. Of several failed ways to
read the tokens, the one that comes furthest gives the error. -/
def parse (tokens : List Token) (length : Nat) : Except GrammarError Expression :=
  match advance (fun reader token => step reader token.symbol) .start tokens with
  | (_, token :: _) => .error (.unexpectedToken token.symbol token.start)
  | (reader, []) =>
    match finish? reader with
    | some e => .ok e
    | none => .error (.unexpectedEnd length)

/-- The expression that a whole formula writes. -/
def parseFormula (formula : String) : Except GrammarError Expression :=
  parse (Token.scan formula) formula.length

end Strict

end Arithmetization
