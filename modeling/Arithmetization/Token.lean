import Arithmetization.Symbol

/-! # Tokens

A formula is read as the list of its symbols; every other character is skipped. Positions count
characters, so a token always covers exactly one position of the text it was read from.
-/

namespace Arithmetization

/-- A symbol with the half-open range of positions it was read from. -/
structure Token where
  symbol : Symbol
  start : Nat
  stop : Nat
deriving DecidableEq, Repr

namespace Token

/-- The token at one position, if the character there belongs to the alphabet. -/
def ofChar? (c : Char) (position : Nat) : Option Token :=
  (Symbol.ofChar? c).map fun symbol => ⟨symbol, position, position + 1⟩

/-- The tokens of a text whose first character has the given position. -/
def scanFrom (position : Nat) (text : List Char) : List Token :=
  (text.zipIdx position).filterMap fun (c, i) => ofChar? c i

/-- The tokens of a formula, in the order of the text. -/
def scan (formula : String) : List Token := scanFrom 0 formula.toList

@[simp] theorem scanFrom_nil (position : Nat) : scanFrom position [] = [] := rfl

theorem scanFrom_cons (position : Nat) (c : Char) (text : List Char) :
    scanFrom position (c :: text) =
      (ofChar? c position).toList ++ scanFrom (position + 1) text := by
  cases found : ofChar? c position <;>
    simp [scanFrom, List.zipIdx_cons, found]

/-- Without their positions, the tokens are the characters that belong to the alphabet. -/
theorem map_symbol_scanFrom (position : Nat) (text : List Char) :
    (scanFrom position text).map symbol = text.filterMap Symbol.ofChar? := by
  induction text generalizing position with
  | nil => rfl
  | cons c text ih =>
    rw [scanFrom_cons, List.map_append, ih, List.filterMap_cons]
    cases found : Symbol.ofChar? c <;> simp [ofChar?, found]

end Token

/-- The symbols of a formula in written order, with foreign characters left out. -/
def symbolsOf (formula : String) : List Symbol := formula.toList.filterMap Symbol.ofChar?

end Arithmetization
