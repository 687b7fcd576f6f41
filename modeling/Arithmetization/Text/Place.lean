/-! # Places in a text

A position of a text is on one of its lines. A carriage return and the line feed after it end one
line, and each of them ends a line by itself; so do the other characters of the same purpose. What
ends the last line begins no further one.
-/

namespace Arithmetization.Text

/-- Whether a character ends a line. -/
def isLineEnd (c : Char) : Bool :=
  ['\n', '\x0b', '\x0c', '\r', '\u0085', '\u2028', '\u2029'].contains c

/-- Whether a line ends between two characters. -/
def endsLine (c next : Char) : Bool := isLineEnd c && !(c == '\r' && next == '\n')

/-- Where a position is. -/
structure Place where
  /-- The number of the line, counted from one. -/
  number : Nat
  /-- The number of characters of the line before the position. -/
  column : Nat
  /-- The characters of the line. -/
  line : List Char
deriving DecidableEq, Repr

/-- The place of a position that counts from a point of a text, given the number of the line that
the point is on and the characters of this line before the point, the last one first. -/
def placeFrom (number : Nat) (before : List Char) : Nat → List Char → Place
  | position + 1, c :: next :: rest =>
    if endsLine c next then placeFrom (number + 1) [] position (next :: rest)
    else placeFrom number (c :: before) position (next :: rest)
  | position, rest =>
    ⟨number, before.length + position, before.reverse ++ rest.takeWhile (!isLineEnd ·)⟩

/-- The place of a position of a text. -/
def placeOf (position : Nat) (text : List Char) : Place := placeFrom 1 [] position text

end Arithmetization.Text
