/-! # The alphabet of Peano formulas

Seventeen symbols, each with the character that writes it and a code between `1` and `17`. The code
`0` belongs to every character outside the alphabet. Connectives, relations and functions of two
operands form one class, `Operator`, because the grammar gives them one precedence level.
-/

namespace Arithmetization

/-- The two quantifiers. -/
inductive Quantifier where
  | universal
  | existential
deriving DecidableEq, Repr

/-- The symbols that stand between two operands. -/
inductive Operator where
  | disjunction
  | conjunction
  | implication
  | equivalence
  | equality
  | addition
  | multiplication
deriving DecidableEq, Repr

/-- The letters that may be bound by a quantifier. -/
inductive Letter where
  | x
  | y
  | z
deriving DecidableEq, Repr

/-- A symbol of the alphabet, classified by the part it plays in a formula. -/
inductive Symbol where
  | quantifier (quantifier : Quantifier)
  | negation
  | operator (operator : Operator)
  | opening
  | closing
  | zero
  | successor
  | letter (letter : Letter)
deriving DecidableEq, Repr

namespace Quantifier

/-- The character that writes a quantifier. -/
def char : Quantifier → Char
  | universal => '∀'
  | existential => '∃'

/-- The adjective that goes with the noun "quantifier". -/
def adjective : Quantifier → String
  | universal => "universal"
  | existential => "existential"

end Quantifier

namespace Operator

/-- The character that writes an operator. -/
def char : Operator → Char
  | disjunction => '∨'
  | conjunction => '∧'
  | implication => '→'
  | equivalence => '↔'
  | equality => '='
  | addition => '+'
  | multiplication => '*'

/-- The name of the function of two arguments that an operator stands for. -/
def name : Operator → String
  | disjunction => "or"
  | conjunction => "and"
  | implication => "impl"
  | equivalence => "equiv"
  | equality => "eq"
  | addition => "add"
  | multiplication => "mul"

/-- The noun that describes what an operator does. -/
def description : Operator → String
  | disjunction => "Disjunction"
  | conjunction => "Conjunction"
  | implication => "Implication"
  | equivalence => "Equivalence"
  | equality => "Equality"
  | addition => "Addition"
  | multiplication => "Multiplication"

end Operator

namespace Letter

/-- The character that writes a letter. -/
def char : Letter → Char
  | x => 'x'
  | y => 'y'
  | z => 'z'

end Letter

namespace Symbol

/-- Every symbol, in the order of the codes. -/
def all : List Symbol :=
  [quantifier .universal, quantifier .existential, negation,
   operator .disjunction, operator .conjunction, operator .implication, operator .equivalence,
   operator .equality, operator .addition, operator .multiplication,
   opening, closing, zero, successor, letter .x, letter .y, letter .z]

/-- The number of symbols, which is also the largest code. -/
def count : Nat := 17

/-- The character that writes a symbol. -/
def char : Symbol → Char
  | quantifier q => q.char
  | negation => '¬'
  | operator op => op.char
  | opening => '('
  | closing => ')'
  | zero => '0'
  | successor => 'S'
  | letter v => v.char

/-- A symbol as text of one character. -/
def text (symbol : Symbol) : String := String.singleton symbol.char

/-- The code of a symbol, its place in the alphabet counted from `1`. -/
def code : Symbol → Nat
  | quantifier .universal => 1
  | quantifier .existential => 2
  | negation => 3
  | operator .disjunction => 4
  | operator .conjunction => 5
  | operator .implication => 6
  | operator .equivalence => 7
  | operator .equality => 8
  | operator .addition => 9
  | operator .multiplication => 10
  | opening => 11
  | closing => 12
  | zero => 13
  | successor => 14
  | letter .x => 15
  | letter .y => 16
  | letter .z => 17

/-- The symbol that a character writes, if it belongs to the alphabet. -/
def ofChar? (c : Char) : Option Symbol := all.find? (·.char = c)

/-- The symbol of a code; `0` and the codes past the last one have none. -/
def ofCode? (code : Nat) : Option Symbol := all.find? (·.code = code)

/-- The code of a character, `0` outside the alphabet. -/
def codeOfChar (c : Char) : Nat := (ofChar? c).elim 0 code

/-- Whether a symbol is one of the letters. -/
def isLetter : Symbol → Bool
  | letter _ => true
  | _ => false

/-- The operator that a symbol is, if it is one. -/
def operator? : Symbol → Option Operator
  | operator op => some op
  | _ => none

/-- The quantifier that a symbol is, if it is one. -/
def quantifier? : Symbol → Option Quantifier
  | quantifier q => some q
  | _ => none

/-- What is said of a character outside the alphabet. -/
def foreignMessage (c : Char) : String := "'" ++ String.singleton c ++ "' is not a formula symbol"

theorem mem_all (symbol : Symbol) : symbol ∈ all := by
  cases symbol with
  | quantifier q => cases q <;> decide
  | operator op => cases op <;> decide
  | letter v => cases v <;> decide
  | _ => decide

theorem char_injective : ∀ s ∈ all, ∀ t ∈ all, s.char = t.char → s = t := by decide

theorem code_injective : ∀ s ∈ all, ∀ t ∈ all, s.code = t.code → s = t := by decide

@[simp] theorem ofChar?_char (symbol : Symbol) : ofChar? symbol.char = some symbol := by
  have : ∀ s ∈ all, ofChar? s.char = some s := by decide
  exact this symbol (mem_all symbol)

@[simp] theorem ofCode?_code (symbol : Symbol) : ofCode? symbol.code = some symbol := by
  have : ∀ s ∈ all, ofCode? s.code = some s := by decide
  exact this symbol (mem_all symbol)

/-- Reading a character inverts writing a symbol. -/
theorem ofChar?_eq_some_iff {c : Char} {symbol : Symbol} :
    ofChar? c = some symbol ↔ c = symbol.char := by
  constructor
  · intro found
    have written := List.find?_some (p := fun s : Symbol => decide (s.char = c)) found
    exact (of_decide_eq_true written).symm
  · rintro rfl
    exact ofChar?_char symbol

/-- Every code lies between `1` and the size of the alphabet. -/
theorem code_bounds (symbol : Symbol) : 1 ≤ symbol.code ∧ symbol.code ≤ count := by
  have : ∀ s ∈ all, 1 ≤ s.code ∧ s.code ≤ count := by decide
  exact this symbol (mem_all symbol)

end Symbol

end Arithmetization
