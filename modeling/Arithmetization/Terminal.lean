import Arithmetization.Decimal

/-! # Text styles of a terminal

A style is switched on by control sequences and off by the reset sequence. Every styled stretch
starts from a reset, so it never inherits what an earlier stretch switched on.
-/

namespace Arithmetization.Terminal

/-- The colors of the basic palette. -/
inductive Color where
  | black
  | red
  | green
  | yellow
  | blue
  | magenta
  | cyan
  | white
deriving DecidableEq, Repr

/-- The place of a color in the palette. -/
def Color.index : Color → Nat
  | black => 0
  | red => 1
  | green => 2
  | yellow => 3
  | blue => 4
  | magenta => 5
  | cyan => 6
  | white => 7

/-- How a stretch of text is shown. -/
structure Style where
  color : Color
  bright : Bool := false
  bold : Bool := false
  dimmed : Bool := false
deriving DecidableEq, Repr

/-- The character that opens every control sequence. -/
def escape : Char := '\x1b'

/-- The control sequence with the given parameters. -/
def control (parameters : List Char) : List Char := escape :: '[' :: (parameters ++ ['m'])

/-- The sequence that switches every style off. -/
def reset : List Char := control ['0']

/-- The parameters that select a color; the bright palette follows the basic one. -/
def Style.colorParameters (style : Style) : List Char :=
  if style.bright then "38;5;".toList ++ Decimal.digits (8 + style.color.index)
  else '3' :: Decimal.digits style.color.index

/-- The sequences that switch a style on, beginning with a reset. -/
def Style.start (style : Style) : List Char :=
  reset ++ (if style.bold then control ['1'] else []) ++
    (if style.dimmed then control ['2'] else []) ++ control style.colorParameters

/-- A stretch of text in a style, with the style switched off after it. -/
def Style.paint (style : Style) (text : List Char) : List Char := style.start ++ text ++ reset

end Arithmetization.Terminal
