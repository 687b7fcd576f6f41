import Arithmetization.Grammar.Reader

/-! # The permissive grammar

Every list of symbols has an expression. Where a term should begin, any symbol that begins no
larger construct is an atom; the symbol after a quantifier is bound whatever it is; the symbol
after the expression in a parenthesis closes it whatever it is. Symbols past the end of the
expression are left unread, and terms that the end of the list cuts off are missing atoms.
-/

namespace Arithmetization.Permissive

open Reader

/-- Takes one symbol, or refuses it because the whole expression ended before it. -/
def step (reader : Reader) (symbol : Symbol) : Option Reader :=
  match reader.phase, symbol with
  | .term, .opening => some ⟨.term, .parenthesis :: reader.pending⟩
  | .term, .negation => some ⟨.term, .negation :: reader.pending⟩
  | .term, .successor => some ⟨.term, .successor :: reader.pending⟩
  | .term, .quantifier q => some ⟨.bound q, reader.pending⟩
  | .term, symbol => some ⟨.after (.atom (some symbol)), reader.pending⟩
  | .bound q, symbol => some ⟨.term, .body q (some symbol) :: reader.pending⟩
  | .after e, .operator op => some (afterOperator op reader.pending e)
  | .after e, _ => afterParenthesis? reader.pending e

/-- The expression of a reader that takes nothing more. -/
def finish (reader : Reader) : Expression :=
  match reader.phase with
  | .term => closeAll reader.pending .missing
  | .bound q => closeAll reader.pending (.quantified q none .missing)
  | .after e => closeAll reader.pending e

/-- An expression and the number of leading symbols that it was read from. -/
structure Parsed where
  root : Expression
  consumed : Nat
deriving DecidableEq, Repr

/-- The expression at the beginning of a list of symbols. -/
def parse (symbols : List Symbol) : Parsed :=
  let (reader, rest) := advance step .start symbols
  ⟨finish reader, symbols.length - rest.length⟩

end Arithmetization.Permissive
