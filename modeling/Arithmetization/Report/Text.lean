import Arithmetization.Analysis
import Arithmetization.Printing
import Arithmetization.Text.Wrap

/-! # Reports as text

A report is a list of lines. Its plain text and its colored text are two views of the same lines.
Only the lines of a number depend on the width of the terminal.
-/

namespace Arithmetization.Report

/-- A line of a report. -/
inductive Line where
  /-- The title of a section. -/
  | heading (title : String)
  /-- A remark that deserves attention. -/
  | warning (text : String)
  /-- A line of a section. -/
  | detail (text : List Char)
  /-- A formula of a section. -/
  | formula (root : Expression)

/-- The style of titles. -/
def headingStyle : Terminal.Style := { color := .green, bright := true, bold := true }

/-- The style of warnings. -/
def warningStyle : Terminal.Style := { color := .yellow, bright := true }

/-- The space before the lines of a section. -/
def indent : List Char := [' ', ' ']

/-- The width of a report where the number of columns of the terminal is not known. -/
def fallbackWidth : Nat := 80

namespace Line

/-- A line without colors. -/
def plain : Line → List Char
  | heading title => title.toList ++ ['\n']
  | warning text => indent ++ text.toList ++ ['\n']
  | detail text => indent ++ text ++ ['\n']
  | formula root => indent ++ root.layout.map Piece.char ++ ['\n']

/-- A line in the colors of a terminal; the line break belongs to the colored stretch. -/
def colored : Line → List Char
  | heading title => headingStyle.paint (title.toList ++ ['\n'])
  | warning text => warningStyle.paint (indent ++ text.toList ++ ['\n'])
  | detail text => indent ++ text ++ ['\n']
  | formula root => indent ++ root.layout.flatMap Piece.painted ++ ['\n']

end Line

/-- The text of a report, with or without colors. -/
def render (color : Bool) (lines : List Line) : String :=
  String.ofList (lines.flatMap fun line => if color then line.colored else line.plain)

/-- A decimal number cut into lines, in a report of the given width. -/
def numberLines (width : Nat) (digits : List Char) : List Line :=
  (Text.wrap (width - indent.length) digits).map .detail

/-- A text filled up with spaces to a number of characters. -/
def padded (length : Nat) (text : String) : List Char :=
  text.toList ++ List.replicate (length - text.length) ' '

/-- The lines of the steps, with the descriptions in one column. -/
def stepLines (steps : List Step) : List Line :=
  let column := steps.foldl (fun m step => max m step.label.length) 0
  steps.map fun step => .detail (padded column step.label ++ indent ++ step.description.toList)

/-- The remark on symbols that the expression was not read from. -/
def unreadLines (unread : Nat) : List Line :=
  if unread = 0 then []
  else [.warning (Decimal.text unread ++ " trailing tokens are not part of the expression")]

/-- The lines of an analysis. -/
def analysisLines (width : Nat) (analysis : Analysis) : List Line :=
  let digits := Decimal.digits analysis.encoding.number
  [.heading "Formula:", .detail analysis.formula.toList,
   .heading ("Tokens (" ++ Decimal.text analysis.symbols.length ++ "):"),
   .detail ((analysis.symbols.map Symbol.char).intersperse ' ')] ++
  unreadLines (analysis.symbols.length - analysis.consumed) ++
  [.heading "Syntax tree:", .formula analysis.root,
   .heading ("Construction steps (" ++ Decimal.text analysis.steps.length ++ "):")] ++
  stepLines analysis.steps ++
  .heading "Encoding:" :: analysis.encoding.items.map (fun item => .detail item.line.toList) ++
  .heading ("Gödel number (" ++ Decimal.text digits.length ++ " digits):") :: numberLines width digits

/-- The lines of a decoded number. -/
def decodedLines (width : Nat) (number formula : String) : List Line :=
  .heading "Decoded formula:" :: .detail formula.toList ::
    .heading "From Gödel number:" :: numberLines width number.toList

/-- The report on an analysis. -/
def analysisText (width : Nat) (color : Bool) (analysis : Analysis) : String :=
  render color (analysisLines width analysis)

/-- The report on a decoded number. -/
def decodedText (width : Nat) (color : Bool) (number formula : String) : String :=
  render color (decodedLines width number formula)

end Arithmetization.Report
