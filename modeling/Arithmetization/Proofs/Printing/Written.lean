import Arithmetization.Printing
import Arithmetization.Token

/-! # The symbols of a printed expression

A printed expression is read back as the symbols of its pieces; spaces are skipped. `written` gives
these symbols by recursion on the expression, without pieces and depths.
-/

namespace Arithmetization

/-- The symbol that a piece is read as. -/
def Piece.symbol? : Piece → Option Symbol
  | symbol s => some s
  | opening _ => some .opening
  | closing _ => some .closing
  | space => none

theorem Piece.ofChar?_char (piece : Piece) : Symbol.ofChar? piece.char = piece.symbol? := by
  cases piece with
  | symbol s => exact Symbol.ofChar?_char s
  | opening _ => exact Symbol.ofChar?_char .opening
  | closing _ => exact Symbol.ofChar?_char .closing
  | space => decide

theorem Piece.filterMap_space (pieces : List Piece) :
    (space :: pieces).filterMap symbol? = pieces.filterMap symbol? := rfl

namespace Expression

/-- Symbols between parentheses. -/
def parenthesize (symbols : List Symbol) : List Symbol := .opening :: (symbols ++ [.closing])

/-- The symbols of a part of an expression, in parentheses where it is binary. -/
def group (isBinary tail : Bool) (written : Bool → List Symbol) : List Symbol :=
  if isBinary then parenthesize (written true) else written tail

/-- The symbols of a printed expression; `tail` says that nothing of the enclosing expression
follows it. -/
def written : Expression → (tail : Bool) → List Symbol
  | atom symbol, _ => symbol.toList
  | successor operand, tail => .successor :: group operand.isBinary tail operand.written
  | negation operand, tail => .negation :: group operand.isBinary tail operand.written
  | binary op left right, tail =>
    left.written false ++ .operator op :: group right.isBinary tail right.written
  | quantified q bound body, true =>
    .quantifier q :: (bound.toList ++ group body.isBinary true body.written)
  | quantified q bound body, false =>
    parenthesize (.quantifier q :: (bound.toList ++ group body.isBinary true body.written))

theorem filterMap_optional (symbol : Option Symbol) :
    (Piece.optional symbol).filterMap Piece.symbol? = symbol.toList := by
  cases symbol <;> rfl

theorem filterMap_grouped {pieces : UInt8 → Bool → List Piece} {written : Bool → List Symbol}
    (reads : ∀ depth tail, (pieces depth tail).filterMap Piece.symbol? = written tail)
    (isBinary : Bool) (depth : UInt8) (tail : Bool) :
    (Piece.grouped isBinary depth tail pieces).filterMap Piece.symbol? =
      group isBinary tail written := by
  cases isBinary with
  | false => exact reads depth tail
  | true =>
    simp [Piece.grouped, Piece.enclose, Piece.symbol?, List.filterMap_append, reads, group,
      parenthesize]

/-- The depth of an expression only matters for its colors. -/
theorem filterMap_pieces (e : Expression) (depth : UInt8) (tail : Bool) :
    (e.pieces depth tail).filterMap Piece.symbol? = e.written tail := by
  induction e generalizing depth tail with
  | atom symbol => exact filterMap_optional symbol
  | successor operand ih =>
    simp [pieces, written, Piece.symbol?, filterMap_grouped ih]
  | negation operand ih =>
    simp [pieces, written, Piece.symbol?, filterMap_grouped ih]
  | binary op left right ihLeft ihRight =>
    simp [pieces, written, Piece.symbol?, Piece.filterMap_space, ihLeft, filterMap_grouped ihRight]
  | quantified q bound body ih =>
    cases tail <;>
      simp [pieces, written, Piece.symbol?, Piece.filterMap_space, Piece.enclose, parenthesize,
        filterMap_optional, filterMap_grouped ih]

/-- Reading the tokens of a printed expression gives its symbols. -/
theorem symbols_scan_text (e : Expression) :
    (Token.scan e.text).map Token.symbol = e.written true := by
  have read : Symbol.ofChar? ∘ Piece.char = Piece.symbol? := funext Piece.ofChar?_char
  rw [Token.scan, Token.map_symbol_scanFrom, text, String.toList_ofList, List.filterMap_map, read]
  exact filterMap_pieces e 0 true

theorem symbolsOf_text (e : Expression) : symbolsOf e.text = e.written true := by
  rw [← symbols_scan_text, Token.scan, Token.map_symbol_scanFrom, symbolsOf]

end Expression

end Arithmetization
