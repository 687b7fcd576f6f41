import Arithmetization.Encoding

/-! # Settings of an analysis -/

namespace Arithmetization

/-- How formulas are analyzed. -/
structure Settings where
  /-- The number of primes, which is the length of the longest formula. -/
  primeCapacity : Nat := Encoder.defaultCapacity
  /-- Whether formulas must follow the strict grammar. -/
  strict : Bool := false
deriving DecidableEq, Repr

namespace Settings

/-- Refuses a capacity past the limit. -/
def validate (settings : Settings) : Except Error Unit :=
  if settings.primeCapacity > Encoder.maxCapacity then
    .error (.capacityTooLarge settings.primeCapacity Encoder.maxCapacity)
  else .ok ()

/-- The encoder of the capacity that the settings ask for. -/
def encoder (settings : Settings) : Except Error Encoder :=
  Encoder.ofCapacity settings.primeCapacity

/-- The settings on one line. -/
def line (settings : Settings) : String :=
  "GodelConfig \x7b prime_capacity: " ++ Decimal.text settings.primeCapacity ++ ", strict: " ++
    (if settings.strict then "true" else "false") ++ " \x7d"

end Settings

end Arithmetization
