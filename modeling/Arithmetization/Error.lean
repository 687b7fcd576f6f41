import Arithmetization.Grammar.Strict

/-! # What can go wrong

Errors are causes; their wording is in one place, `Error.message`.
-/

namespace Arithmetization

/-- Why a number does not encode a formula. -/
inductive DecodingFault where
  | zero
  /-- The prime at a position divides the number more often than the largest code. -/
  | exponentTooLarge (prime position : Nat)
  /-- The number has a prime factor past the primes of the table. -/
  | factorsBeyondTable (available : Nat)
deriving DecidableEq, Repr

/-- The wording of a fault. -/
def DecodingFault.message : DecodingFault → String
  | zero => "zero has no prime factorization"
  | exponentTooLarge prime position =>
    "the exponent of " ++ Decimal.text prime ++ " at position " ++ Decimal.text position ++
      " exceeds the largest symbol code " ++ Decimal.text Symbol.count
  | factorsBeyondTable available =>
    "it has prime factors beyond the first " ++ Decimal.text available ++ " primes"

/-- Why a formula or a number is refused. -/
inductive Error where
  /-- The formula has more characters than the table has primes. -/
  | primesExhausted (length available : Nat)
  /-- A table larger than the limit was asked for. -/
  | capacityTooLarge (requested limit : Nat)
  | malformedGrammar (error : GrammarError)
  | notAnEncoding (number : Nat) (fault : DecodingFault)
deriving DecidableEq, Repr

/-- The wording of an error. -/
def Error.message : Error → String
  | primesExhausted length available =>
    "Formula of " ++ Decimal.text length ++ " characters cannot be encoded: only " ++
      Decimal.text available ++ " primes are available."
  | capacityTooLarge requested limit =>
    "Cannot build a table of " ++ Decimal.text requested ++ " primes: at most " ++
      Decimal.text limit ++ " are supported."
  | malformedGrammar error => "Formula does not follow the grammar: " ++ error.message
  | notAnEncoding number fault =>
    Decimal.text number ++ " is not a Gödel number: " ++ fault.message

end Arithmetization
