import Arithmetization.Proofs.Printing.Depths

/-! # An expression as it is drawn

An expression is drawn as its symbols with spaces around operators and after a quantifier, and with
parentheses where a part is binary or a quantifier is followed by more. In colors, every symbol and
every parenthesis has control sequences before it and a reset after it. The control sequences are
spelled out, and the drawing is by recursion on the expression; it does not go through the pieces
that the printer lays out.
-/

namespace Arithmetization

/-- The control sequences before a symbol. -/
def Symbol.coloring : Symbol → String
  | .quantifier _ => "\x1b[0m\x1b[1m\x1b[36m"
  | .negation => "\x1b[0m\x1b[1m\x1b[33m"
  | .operator _ => "\x1b[0m\x1b[1m\x1b[33m"
  | .opening => "\x1b[0m\x1b[2m\x1b[34m"
  | .closing => "\x1b[0m\x1b[2m\x1b[34m"
  | .zero => "\x1b[0m\x1b[35m"
  | .successor => "\x1b[0m\x1b[35m"
  | .letter _ => "\x1b[0m\x1b[1m\x1b[32m"

/-- The control sequences before a grouping parenthesis, whose depth is counted in a byte. -/
def parenthesisColoring (depth : Nat) : String :=
  match depth % 256 % 3 with
  | 0 => "\x1b[0m\x1b[2m\x1b[34m"
  | 1 => "\x1b[0m\x1b[2m\x1b[32m"
  | _ => "\x1b[0m\x1b[2m\x1b[33m"

section

variable (color : Bool)

/-- A character, in colors between control sequences and a reset. -/
def drawnChar (coloring : String) (c : Char) : String :=
  if color then coloring ++ String.singleton c ++ "\x1b[0m" else String.singleton c

namespace Symbol

/-- A symbol as it is drawn. -/
def drawn (symbol : Symbol) : String := drawnChar color symbol.coloring symbol.char

/-- Nothing is drawn for a symbol that is not there. -/
def drawn? (symbol : Option Symbol) : String := (symbol.map (drawn color)).getD ""

end Symbol

/-- A drawing between parentheses. -/
def parenthesized (depth : Nat) (drawing : String) : String :=
  drawnChar color (parenthesisColoring depth) '(' ++ drawing ++
    drawnChar color (parenthesisColoring depth) ')'

/-- The drawing of a part, in parentheses where the part is binary. -/
def drawnPart (isBinary : Bool) (depth : Nat) (tail : Bool) (drawing : Nat → Bool → String) :
    String :=
  if isBinary then parenthesized color depth (drawing (depth + 1) true) else drawing depth tail

namespace Expression

/-- An expression as it is drawn at a depth; `tail` says that nothing of the enclosing expression
follows it. -/
def drawn : Expression → (depth : Nat) → (tail : Bool) → String
  | atom symbol, _, _ => Symbol.drawn? color symbol
  | successor operand, depth, tail =>
    Symbol.successor.drawn color ++ drawnPart color operand.isBinary depth tail operand.drawn
  | negation operand, depth, tail =>
    Symbol.negation.drawn color ++ drawnPart color operand.isBinary depth tail operand.drawn
  | binary op left right, depth, tail =>
    left.drawn depth false ++ " " ++ (Symbol.operator op).drawn color ++ " " ++
      drawnPart color right.isBinary depth tail right.drawn
  | quantified q bound body, depth, true =>
    (Symbol.quantifier q).drawn color ++ Symbol.drawn? color bound ++ " " ++
      drawnPart color body.isBinary depth true body.drawn
  | quantified q bound body, depth, false =>
    parenthesized color depth ((Symbol.quantifier q).drawn color ++ Symbol.drawn? color bound ++
      " " ++ drawnPart color body.isBinary (depth + 1) true body.drawn)

end Expression

end

/-! ## Drawings of pieces -/

/-- What is seen of a piece. -/
def Piece.seen (color : Bool) (piece : Piece) : List Char :=
  if color then piece.painted else [piece.char]

theorem Symbol.start_eq_coloring (symbol : Symbol) :
    (Piece.symbolStyle symbol).start = symbol.coloring.toList := by
  have quantifier : Terminal.Style.start { color := .cyan, bold := true } =
      "\x1b[0m\x1b[1m\x1b[36m".toList := by decide
  have operator : Terminal.Style.start { color := .yellow, bold := true } =
      "\x1b[0m\x1b[1m\x1b[33m".toList := by decide
  have parenthesis : (Piece.parenthesisStyle 0).start = "\x1b[0m\x1b[2m\x1b[34m".toList := by decide
  have term : Terminal.Style.start { color := .magenta } = "\x1b[0m\x1b[35m".toList := by decide
  have letter : Terminal.Style.start { color := .green, bold := true } =
      "\x1b[0m\x1b[1m\x1b[32m".toList := by decide
  cases symbol <;> assumption

theorem start_eq_parenthesisColoring (depth : Nat) :
    (Piece.parenthesisStyle (.ofNat depth)).start = (parenthesisColoring depth).toList := by
  have blue : Terminal.Style.start { color := .blue, dimmed := true } =
      "\x1b[0m\x1b[2m\x1b[34m".toList := by decide
  have green : Terminal.Style.start { color := .green, dimmed := true } =
      "\x1b[0m\x1b[2m\x1b[32m".toList := by decide
  have yellow : Terminal.Style.start { color := .yellow, dimmed := true } =
      "\x1b[0m\x1b[2m\x1b[33m".toList := by decide
  have byte : (UInt8.ofNat depth).toNat = depth % 256 := UInt8.toNat_ofNat'
  have found := Piece.parenthesisColor_eq (.ofNat depth)
  have turn : depth % 256 % 3 = 0 ∨ depth % 256 % 3 = 1 ∨ depth % 256 % 3 = 2 := by omega
  rw [byte] at found
  rw [Piece.parenthesisStyle, parenthesisColoring]
  rcases turn with turn | turn | turn <;> rw [turn] at found ⊢ <;> rw [← Option.some.inj found]
  · exact blue
  · exact green
  · exact yellow

variable {color : Bool}

theorem toList_drawnChar {style : Terminal.Style} {coloring : String}
    (starts : style.start = coloring.toList) (c : Char) :
    (drawnChar color coloring c).toList = if color then style.paint [c] else [c] := by
  have reset : Terminal.reset = "\x1b[0m".toList := by decide
  cases color <;> simp [drawnChar, Terminal.Style.paint, starts, reset]

theorem Symbol.toList_drawn (symbol : Symbol) :
    (symbol.drawn color).toList = (Piece.symbol symbol).seen color :=
  toList_drawnChar symbol.start_eq_coloring symbol.char

theorem Symbol.toList_drawn? (symbol : Option Symbol) :
    (Symbol.drawn? color symbol).toList = (Piece.optional symbol).flatMap (Piece.seen color) := by
  cases symbol with
  | none => rfl
  | some symbol => simp [drawn?, toList_drawn, Piece.optional]

theorem Piece.seen_space : space.seen color = [' '] := by
  cases color <;> rfl

/-- A pair of parentheses is seen around what it encloses. -/
theorem toList_parenthesized {drawing : String} {pieces : List Piece} (depth : Nat)
    (seen : drawing.toList = pieces.flatMap (Piece.seen color)) :
    (parenthesized color depth drawing).toList =
      (Piece.enclose (.ofNat depth) pieces).flatMap (Piece.seen color) := by
  have styled := start_eq_parenthesisColoring depth
  rw [parenthesized, String.toList_append, String.toList_append, toList_drawnChar styled,
    toList_drawnChar styled, seen]
  simp [Piece.enclose, Piece.seen, Piece.painted, Piece.style?, Piece.char]

theorem toList_drawnPart {drawing : Nat → Bool → String} {pieces : UInt8 → Bool → List Piece}
    (seen : ∀ depth tail, (drawing depth tail).toList =
      (pieces (.ofNat depth) tail).flatMap (Piece.seen color))
    (isBinary : Bool) (depth : Nat) (tail : Bool) :
    (drawnPart color isBinary depth tail drawing).toList =
      (Piece.grouped isBinary (.ofNat depth) tail pieces).flatMap (Piece.seen color) := by
  cases isBinary with
  | false => exact seen depth tail
  | true =>
    have below := seen (depth + 1) true
    rw [UInt8.ofNat_add] at below
    exact toList_parenthesized depth below

/-- What is drawn of an expression is what is seen of its pieces. -/
theorem Expression.toList_drawn (e : Expression) (depth : Nat) (tail : Bool) :
    (e.drawn color depth tail).toList =
      (e.pieces (.ofNat depth) tail).flatMap (Piece.seen color) := by
  induction e generalizing depth tail with
  | atom symbol => exact Symbol.toList_drawn? symbol
  | successor operand ih =>
    simp [drawn, pieces, Symbol.toList_drawn, toList_drawnPart ih]
  | negation operand ih =>
    simp [drawn, pieces, Symbol.toList_drawn, toList_drawnPart ih]
  | binary op left right ihLeft ihRight =>
    simp [drawn, pieces, Symbol.toList_drawn, ihLeft, toList_drawnPart ihRight, Piece.seen_space]
  | quantified q bound body ih =>
    have opened (depth : Nat) : ((Symbol.quantifier q).drawn color ++ Symbol.drawn? color bound ++
        " " ++ drawnPart color body.isBinary depth true (body.drawn color)).toList =
        (Piece.symbol (.quantifier q) :: (Piece.optional bound ++ .space ::
          Piece.grouped body.isBinary (.ofNat depth) true body.pieces)).flatMap
            (Piece.seen color) := by
      simp [Symbol.toList_drawn, Symbol.toList_drawn?, toList_drawnPart ih, Piece.seen_space]
    cases tail with
    | true => exact opened depth
    | false =>
      have below := opened (depth + 1)
      rw [UInt8.ofNat_add] at below
      exact toList_parenthesized depth below

/-- A whole expression is drawn as it is printed, in colors or without. -/
theorem Expression.drawn_eq (e : Expression) :
    e.drawn color 0 true = if color then e.coloredText else e.text := by
  apply String.toList_inj.mp
  rw [toList_drawn]
  cases color with
  | false =>
    have plain : Piece.seen false = fun piece => [piece.char] := rfl
    simp [text, layout, plain, ← List.map_eq_flatMap]
  | true =>
    have painted : Piece.seen true = Piece.painted := rfl
    simp [coloredText, layout, painted]

end Arithmetization
