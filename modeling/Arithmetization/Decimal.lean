import Arithmetization.Text.Blank

/-! # Decimal text of natural numbers

Numbers here may have hundreds of thousands of digits, so they are written by halving: a number
below `10 ^ (2 * m)` is split at `10 ^ m` and both halves are written with all their digits. Read
texts may carry a plus sign, leading zeros, underscores and surrounding white space.
-/

namespace Arithmetization.Decimal

/-- The last `2 ^ level` decimal digits of a number, leading zeros included. -/
def block : Nat → Nat → List Char
  | 0, n => [Nat.digitChar (n % 10)]
  | level + 1, n =>
    let half := Nat.pow 10 (Nat.pow 2 level)
    block level (n / half) ++ block level (n % half)

/-- A level whose block has room for all digits of a number: a digit holds three bits at least. -/
def level (n : Nat) : Nat := Nat.log2 (Nat.log2 n / 3 + 1) + 1

/-- The decimal digits of a number without leading zeros; zero has one digit. -/
def digits (n : Nat) : List Char :=
  match (block (level n) n).dropWhile (· = '0') with
  | [] => ['0']
  | c :: rest => c :: rest

/-- A number in decimal. -/
def text (n : Nat) : String := String.ofList (digits n)

/-- The number that a list of decimal digits writes, the most significant digit first. -/
def value (digits : List Char) : Nat := digits.foldl (fun n c => 10 * n + (c.toNat - '0'.toNat)) 0

/-- The text without its sign, if it begins with exactly one plus sign. -/
def withoutSign : List Char → List Char
  | '+' :: '+' :: rest => '+' :: '+' :: rest
  | '+' :: rest => rest
  | text => text

/-- The number that an unsigned text writes: a digit, then digits and underscores. -/
def ofUnsigned? : List Char → Option Nat
  | [] => none
  | c :: rest =>
    if c.isDigit && rest.all (fun d => d.isDigit || d = '_') then
      some (value ((c :: rest).filter Char.isDigit))
    else none

/-- The largest number that fits into a word of 64 bits. -/
def maxWord : Nat := 18446744073709551615

/-- The natural number that a text writes, with an optional plus sign and white space around it. -/
def ofText? (text : String) : Option Nat := ofUnsigned? (withoutSign (Text.trim text.toList))

end Arithmetization.Decimal
