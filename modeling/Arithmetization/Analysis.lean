import Arithmetization.Construction
import Arithmetization.Grammar.Permissive
import Arithmetization.Settings

/-! # Analysis of formulas

An analyzer encodes a formula, reads it under one of the two grammars and constructs the resulting
expression. The length is checked first, so the nesting of an expression that is constructed is
bounded by the capacity of the analyzer.
-/

namespace Arithmetization

/-- Everything that is found out about a formula. -/
structure Analysis where
  formula : String
  symbols : List Symbol
  /-- The number of leading symbols that the expression was read from. -/
  consumed : Nat
  root : Expression
  steps : List Step
  encoding : Encoding
deriving DecidableEq, Repr

/-- Settings together with the encoder that they ask for. -/
structure Analyzer where
  settings : Settings
  encoder : Encoder
deriving DecidableEq, Repr

namespace Analyzer

/-- The analyzer of the given settings, unless their capacity is past the limit. -/
def ofSettings (settings : Settings) : Except Error Analyzer :=
  settings.encoder.map (⟨settings, ·⟩)

/-- The expression of the tokens of a formula and the number of symbols that it was read from. The
strict grammar takes all of them or none. -/
def read (analyzer : Analyzer) (tokens : List Token) (length : Nat) :
    Except GrammarError (Expression × Nat) :=
  if analyzer.settings.strict then (Strict.parse tokens length).map (·, tokens.length)
  else
    let parsed := Permissive.parse (tokens.map Token.symbol)
    .ok (parsed.root, parsed.consumed)

/-- The analysis of a formula that is short enough and, under strict settings, well formed. -/
def run (analyzer : Analyzer) (formula : String) : Except Error Analysis :=
  match analyzer.encoder.encode formula with
  | .error error => .error error
  | .ok encoding =>
    let tokens := Token.scan formula
    match analyzer.read tokens formula.length with
    | .error error => .error (.malformedGrammar error)
    | .ok (root, consumed) =>
      .ok ⟨formula, tokens.map Token.symbol, consumed, root, root.construct, encoding⟩

end Analyzer

end Arithmetization
