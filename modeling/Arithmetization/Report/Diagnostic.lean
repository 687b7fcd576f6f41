import Arithmetization.Grammar.Strict
import Arithmetization.Text.Place
import Arithmetization.Text.Width

/-! # Reports on grammar errors

The line of the formula that an error is on is shown with a marker under the offending character, or
under the place after the last one. The heading counts characters, from one; the marker is moved by
the cells that the characters before it take.
-/

namespace Arithmetization.Report

/-- How an error is pointed out. -/
structure Marker where
  /-- The sign under the offending place. -/
  sign : String
  /-- The number of columns after the offending one that the marker takes, too. -/
  reach : Nat
  /-- The remark at the marker. -/
  remark : String
deriving DecidableEq, Repr

/-- The marker of an error. -/
def marker : GrammarError → Marker
  | .unexpectedToken _ _ => ⟨"┬", 2, "This token is not allowed here"⟩
  | .unexpectedEnd _ => ⟨"│", 1, "The formula ends too early"⟩

/-- A number of copies of a character. -/
def copies (count : Nat) (c : Char) : String := String.ofList (List.replicate count c)

/-- The report on an error in a formula of the given name. -/
def diagnostic (name formula : String) (error : GrammarError) : String :=
  let place := Text.placeOf error.position formula.toList
  let number := Decimal.text place.number
  let line := Text.trimEnd place.line
  let marker := marker error
  let border := number.length + 2
  let margin := copies border ' ' ++ "│"
  let indent := margin ++ " " ++ copies (Text.columnsWidth line 0 place.column) ' '
  let reach := Text.columnsWidth line (place.column + 1) marker.reach
  "Error: " ++ error.message ++ "\n" ++
  copies border ' ' ++ "╭─[ " ++ name ++ ":" ++ number ++ ":" ++
    Decimal.text (place.column + 1) ++ " ]\n" ++
  margin ++ "\n" ++
  " " ++ number ++ " │ " ++ String.ofList (Text.withBlanks line) ++ "\n" ++
  indent ++ marker.sign ++ copies reach ' ' ++ "\n" ++
  indent ++ "╰" ++ copies reach '─' ++ " " ++ marker.remark ++ "\n" ++
  copies border '─' ++ "╯\n"

end Arithmetization.Report
