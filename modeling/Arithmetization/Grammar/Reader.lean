import Arithmetization.Expression

/-! # Readers of symbols

A formula is read from left to right, one symbol at a time, without looking ahead. A reader holds
the constructs that have begun and still wait for a part to their right, the innermost first, and
what may come next. All operators associate to the left on one level of precedence, prefix
operators take a single term, and the body of a quantifier extends as far to the right as it can.

Which symbols a reader takes is left to a step function; the permissive and the strict grammar
share everything in this module.
-/

namespace Arithmetization

/-- A construct that waits for a part to its right. -/
inductive Frame where
  /-- A successor sign before its operand. -/
  | successor
  /-- A negation sign before its operand. -/
  | negation
  /-- An operator after its left operand. -/
  | operand (operator : Operator) (left : Expression)
  /-- An opening parenthesis before an expression and its closing symbol. -/
  | parenthesis
  /-- A quantifier and its bound symbol before the body. -/
  | body (quantifier : Quantifier) (bound : Option Symbol)
deriving DecidableEq, Repr

/-- What a reader has before it. -/
inductive Phase where
  /-- The beginning of a term. -/
  | term
  /-- The symbol that a quantifier binds. -/
  | bound (quantifier : Quantifier)
  /-- The place after a term. -/
  | after (term : Expression)
deriving DecidableEq, Repr

/-- The state of reading a formula from left to right. -/
structure Reader where
  phase : Phase
  pending : List Frame
deriving DecidableEq, Repr

namespace Reader

/-- The reader before the first symbol. -/
def start : Reader := ⟨.term, []⟩

/-- Gives a term to the prefix operators before it and to at most one operator before those. -/
def settle : List Frame → Expression → List Frame × Expression
  | .successor :: pending, e => settle pending (.successor e)
  | .negation :: pending, e => settle pending (.negation e)
  | .operand op left :: pending, e => (pending, .binary op left e)
  | pending, e => (pending, e)

/-- Ends an expression after a term: completes every construct inside the innermost parenthesis. -/
def close : List Frame → Expression → List Frame × Expression
  | .successor :: pending, e => close pending (.successor e)
  | .negation :: pending, e => close pending (.negation e)
  | .operand op left :: pending, e => close pending (.binary op left e)
  | .body q bound :: pending, e => close pending (.quantified q bound e)
  | pending, e => (pending, e)

/-- Ends every construct after a term; a parenthesis that is still open adds nothing. -/
def closeAll : List Frame → Expression → Expression
  | .successor :: pending, e => closeAll pending (.successor e)
  | .negation :: pending, e => closeAll pending (.negation e)
  | .operand op left :: pending, e => closeAll pending (.binary op left e)
  | .body q bound :: pending, e => closeAll pending (.quantified q bound e)
  | .parenthesis :: pending, e => closeAll pending e
  | [], e => e

/-- The reader after an operator that follows a term. -/
def afterOperator (op : Operator) (pending : List Frame) (e : Expression) : Reader :=
  ⟨.term, .operand op (settle pending e).2 :: (settle pending e).1⟩

/-- The reader after the symbol that closes the innermost parenthesis, if one is open. -/
def afterParenthesis? (pending : List Frame) (e : Expression) : Option Reader :=
  match close pending e with
  | (.parenthesis :: outer, inner) => some ⟨.after inner, outer⟩
  | _ => none

/-- Reads on for as long as `step` takes the next input; gives the last state and what is left. -/
def advance {Input : Type} (step : Reader → Input → Option Reader) (reader : Reader) :
    List Input → Reader × List Input
  | [] => (reader, [])
  | input :: rest =>
    match step reader input with
    | some next => advance step next rest
    | none => (reader, input :: rest)

end Reader

end Arithmetization
