import Arithmetization.Error
import Arithmetization.Primes

/-! # Gödel numbers

The character at place `i` of a formula contributes the factor `p_i ^ code`, where `p_i` is the
`i`-th prime and characters outside the alphabet have the code `0`. The Gödel number is the product
of the factors. Since such a character contributes the factor `1`, decoding shows it as unknown
between symbols and cannot show it at the end.
-/

namespace Arithmetization

/-- What one character contributes to the number of a formula. -/
structure Item where
  char : Char
  code : Nat
  prime : Nat
  factor : Nat
deriving DecidableEq, Repr

namespace Item

/-- The contribution of a character at the place of a prime. -/
def ofChar (c : Char) (prime : Nat) : Item :=
  ⟨c, Symbol.codeOfChar c, prime, Nat.pow prime (Symbol.codeOfChar c)⟩

/-- An item on one line. -/
def line (item : Item) : String :=
  String.singleton item.char ++ ": " ++ Decimal.text item.prime ++ "^" ++ Decimal.text item.code ++
    " = " ++ Decimal.text item.factor

end Item

/-- The contributions of the characters of a formula and their product. -/
structure Encoding where
  items : List Item
  number : Nat
deriving DecidableEq, Repr

namespace Encoding

/-- The encoding with the given items. -/
def ofItems (items : List Item) : Encoding := ⟨items, items.foldr (fun item n => item.factor * n) 1⟩

/-- The largest code, `0` without items. -/
def maxCode (encoding : Encoding) : Nat := encoding.items.foldl (fun m item => max m item.code) 0

/-- The number of binary digits of a number; zero has none. -/
def bitCount (n : Nat) : Nat := if n = 0 then 0 else Nat.log2 n + 1

end Encoding

/-- A table of primes for encoding formulas and decoding numbers. -/
structure Encoder where
  primes : PrimeTable
deriving DecidableEq, Repr

namespace Encoder

/-- The capacity where none is asked for. -/
def defaultCapacity : Nat := 256

/-- The largest capacity; it also bounds the nesting of every expression that is analyzed. -/
def maxCapacity : Nat := 4096

/-- The encoder of the default capacity. -/
def standard : Encoder := ⟨.first defaultCapacity⟩

/-- The encoder of the given capacity, unless the capacity is past the limit. -/
def ofCapacity (capacity : Nat) : Except Error Encoder :=
  if capacity > maxCapacity then .error (.capacityTooLarge capacity maxCapacity)
  else .ok ⟨.first capacity⟩

/-- The length of the longest formula that an encoder takes. -/
def capacity (encoder : Encoder) : Nat := encoder.primes.size

/-- The encoding of a formula, unless the formula is longer than the table. -/
def encode (encoder : Encoder) (formula : String) : Except Error Encoding :=
  if formula.length > encoder.capacity then
    .error (.primesExhausted formula.length encoder.capacity)
  else
    .ok (.ofItems (List.zipWith Item.ofChar formula.toList encoder.primes.toList))

/-- How often a prime divides a number, counted up to a limit. -/
def multiplicity (prime : Nat) : (limit : Nat) → Nat → Nat
  | 0, _ => 0
  | limit + 1, n => if n % prime = 0 then multiplicity prime limit (n / prime) + 1 else 0

/-- A remainder modulo the power of the limit has the same multiplicity as the number itself. -/
theorem multiplicity_mod (prime limit n : Nat) :
    multiplicity prime limit (n % Nat.pow prime limit) = multiplicity prime limit n := by
  induction limit generalizing n with
  | zero => rfl
  | succ limit ih =>
    have power : Nat.pow prime (limit + 1) = prime * Nat.pow prime limit := Nat.mul_comm _ _
    have remainder : n % Nat.pow prime (limit + 1) % prime = n % prime := by
      rw [power]; exact Nat.mod_mul_right_mod n prime (Nat.pow prime limit)
    have quotient :
        n % Nat.pow prime (limit + 1) / prime = n / prime % Nat.pow prime limit := by
      rw [power]; exact Nat.mod_mul_right_div_self n prime (Nat.pow prime limit)
    simp only [multiplicity, remainder, quotient, ih]

/-- The multiplicity up to one past the largest code, found from a remainder that is small even
where the number is not. -/
def exponent (prime n : Nat) : Nat :=
  multiplicity prime (Symbol.count + 1) (n % Nat.pow prime (Symbol.count + 1))

theorem exponent_eq_multiplicity (prime n : Nat) :
    exponent prime n = multiplicity prime (Symbol.count + 1) n :=
  multiplicity_mod prime (Symbol.count + 1) n

/-- The symbols that the exponents of the primes from a position on stand for. The reading stops as
soon as nothing but `1` is left of the number. -/
def readExponents (available position remaining : Nat) :
    List Nat → Except DecodingFault (List (Option Symbol))
  | [] => if remaining = 1 then .ok [] else .error (.factorsBeyondTable available)
  | prime :: primes =>
    if remaining = 1 then .ok []
    else
      let code := exponent prime remaining
      if code > Symbol.count then .error (.exponentTooLarge prime position)
      else
        (readExponents available (position + 1) (remaining / Nat.pow prime code) primes).map
          (Symbol.ofCode? code :: ·)

/-- The symbols that a number encodes, with nothing at the places of unknown characters. -/
def decode (encoder : Encoder) (number : Nat) : Except Error (List (Option Symbol)) :=
  if number = 0 then .error (.notAnEncoding number .zero)
  else
    (readExponents encoder.capacity 0 number encoder.primes.toList).mapError (.notAnEncoding number)

/-- The character that stands for a character outside the alphabet. -/
def unknownChar : Char := '?'

/-- A list of symbols as a formula, with a question mark where there is none. -/
def formulaOf (symbols : List (Option Symbol)) : String :=
  String.ofList (symbols.map fun symbol => symbol.elim unknownChar Symbol.char)

/-- The formula that a number encodes. -/
def decodeFormula (encoder : Encoder) (number : Nat) : Except Error String :=
  (encoder.decode number).map formulaOf

end Encoder

end Arithmetization
