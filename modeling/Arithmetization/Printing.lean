import Arithmetization.Expression
import Arithmetization.Terminal

/-! # Writing an expression as a formula

Parentheses stand only where the grammar or the reader needs them: around a binary right operand,
a binary operand of a negation or successor, a binary body of a quantifier, and a quantifier that
is followed by more of the enclosing expression, since its body would swallow the rest. Nothing is
written for a missing atom or an absent bound symbol.

The printed formula is a list of pieces. Its plain text and its colored text are two views of it.
-/

namespace Arithmetization

/-- A piece of a printed formula; a grouping parenthesis carries the depth it is nested at. -/
inductive Piece where
  | symbol (symbol : Symbol)
  | opening (depth : UInt8)
  | closing (depth : UInt8)
  | space
deriving DecidableEq, Repr

namespace Piece

/-- The character of a piece. -/
def char : Piece → Char
  | symbol s => s.char
  | opening _ => '('
  | closing _ => ')'
  | space => ' '

/-- The color of a parenthesis, which goes round with the depth. -/
def parenthesisColor (depth : UInt8) : Terminal.Color :=
  match depth % 3 with
  | 0 => .blue
  | 1 => .green
  | _ => .yellow

/-- The style of a grouping parenthesis. -/
def parenthesisStyle (depth : UInt8) : Terminal.Style :=
  { color := parenthesisColor depth, dimmed := true }

/-- The style of a symbol; a parenthesis held by an atom has depth zero. -/
def symbolStyle : Symbol → Terminal.Style
  | .quantifier _ => { color := .cyan, bold := true }
  | .negation => { color := .yellow, bold := true }
  | .operator _ => { color := .yellow, bold := true }
  | .opening => parenthesisStyle 0
  | .closing => parenthesisStyle 0
  | .zero => { color := .magenta }
  | .successor => { color := .magenta }
  | .letter _ => { color := .green, bold := true }

/-- The style of a piece; a space has none. -/
def style? : Piece → Option Terminal.Style
  | symbol s => some (symbolStyle s)
  | opening depth => some (parenthesisStyle depth)
  | closing depth => some (parenthesisStyle depth)
  | space => none

/-- A piece as it is sent to a terminal. -/
def painted (piece : Piece) : List Char :=
  match piece.style? with
  | some style => style.paint [piece.char]
  | none => [piece.char]

/-- Pieces between a pair of grouping parentheses. -/
def enclose (depth : UInt8) (inner : List Piece) : List Piece :=
  opening depth :: (inner ++ [closing depth])

/-- The pieces of an optional symbol. -/
def optional (symbol : Option Symbol) : List Piece := symbol.toList.map Piece.symbol

/-- A part of an expression, in parentheses one level further in where it is binary. -/
def grouped (isBinary : Bool) (depth : UInt8) (tail : Bool)
    (pieces : UInt8 → Bool → List Piece) : List Piece :=
  if isBinary then enclose depth (pieces (depth + 1) true) else pieces depth tail

end Piece

namespace Expression

/-- The pieces of an expression at a nesting depth; `tail` says that nothing of the enclosing
expression follows it. -/
def pieces : Expression → UInt8 → Bool → List Piece
  | atom symbol, _, _ => Piece.optional symbol
  | successor operand, depth, tail =>
    .symbol .successor :: Piece.grouped operand.isBinary depth tail operand.pieces
  | negation operand, depth, tail =>
    .symbol .negation :: Piece.grouped operand.isBinary depth tail operand.pieces
  | binary op left right, depth, tail =>
    left.pieces depth false ++ .space :: .symbol (.operator op) :: .space ::
      Piece.grouped right.isBinary depth tail right.pieces
  | quantified q bound body, depth, true =>
    .symbol (.quantifier q) :: (Piece.optional bound ++ .space ::
      Piece.grouped body.isBinary depth true body.pieces)
  | quantified q bound body, depth, false =>
    Piece.enclose depth (.symbol (.quantifier q) :: (Piece.optional bound ++ .space ::
      Piece.grouped body.isBinary (depth + 1) true body.pieces))

/-- The pieces of a whole formula. -/
def layout (e : Expression) : List Piece := e.pieces 0 true

/-- An expression as a formula. -/
def text (e : Expression) : String := String.ofList (e.layout.map Piece.char)

/-- An expression as a formula in the colors of a terminal. -/
def coloredText (e : Expression) : String := String.ofList (e.layout.flatMap Piece.painted)

end Expression

end Arithmetization
