import Arithmetization.Proofs.Decimal
import Arithmetization.Proofs.Locating
import Arithmetization.Report.Diagnostic

/-! # What a report on a grammar error says

The report on a grammar error has a heading with the cause and the position, the place of the
position, and the line of the formula with a marker under it. The line is shown without the white
space at its end and with blanks for the other white space, and the marker is moved by the cells that
the characters before it take.
-/

namespace Arithmetization.Report

/-! ## Lines and markers -/

/-- A number of spaces. -/
def spaces (count : Nat) : String := String.ofList (List.replicate count ' ')

/-- A number of dashes. -/
def dashes (count : Nat) : String := String.ofList (List.replicate count '─')

/-- A line without the white space at its end. -/
structure IsTrimmed (line trimmed : List Char) : Prop where
  rest : ∃ blanks, line = trimmed ++ blanks ∧ ∀ c ∈ blanks, Text.isBlank c
  solid : ∀ c ∈ trimmed.getLast?, ¬ Text.isBlank c

/-- The cells of some columns of a line from one of them on; a column without a character takes one
cell. -/
def cells (chars : List Char) (start count : Nat) : Nat :=
  (List.range' start count).foldr (fun i rest => chars[i]?.elim 1 (Text.cellWidth i) + rest) 0

/-- A line with as many spaces in the place of white space as the white space takes cells. -/
def spelledOut (line : List Char) : String :=
  String.ofList (line.mapIdx fun i c =>
    if Text.isBlank c then List.replicate (Text.cellWidth i c) ' ' else [c]).flatten

/-- A place in a text of some name with the line that it is on, where a sign under the column takes
some more columns and has a remark. -/
def pointer (name : String) (number column : Nat) (line : List Char) (sign : String) (extent : Nat)
    (remark : String) : String :=
  let border := (toString number).length + 2
  let gap := cells line 0 column
  let reach := cells line (column + 1) extent
  spaces border ++ s!"╭─[ {name}:{number}:{column + 1} ]\n" ++
  spaces border ++ "│\n" ++
  s!" {number} │ " ++ spelledOut line ++ "\n" ++
  spaces border ++ "│ " ++ spaces gap ++ sign ++ spaces reach ++ "\n" ++
  spaces border ++ "│ " ++ spaces gap ++ "╰" ++ dashes reach ++ " " ++ remark ++ "\n" ++
  dashes border ++ "╯\n"

/-- A position of a formula of some name is pointed at, wherever it is. -/
inductive PointsAt (name formula : String) (position : Nat) (sign : String) (extent : Nat)
    (remark : String) : String → Prop where
  | place {number column : Nat} {line trimmed : List Char}
    (located : Text.Located formula.toList position ⟨number, column, line⟩)
    (trims : IsTrimmed line trimmed) : PointsAt name formula position sign extent remark
      (pointer name number column trimmed sign extent remark)

/-- The report on a grammar error in a formula of some name. -/
inductive Diagnoses (name formula : String) : GrammarError → String → Prop where
  | unexpectedToken {found : Symbol} {position : Nat} {text : String}
    (points : PointsAt name formula position "┬" 2 "This token is not allowed here" text) :
    Diagnoses name formula (.unexpectedToken found position)
      ("Error: unexpected token `" ++ String.singleton found.char ++
        s!"` at position {position}\n" ++ text)
  | unexpectedEnd {position : Nat} {text : String}
    (points : PointsAt name formula position "│" 1 "The formula ends too early" text) :
    Diagnoses name formula (.unexpectedEnd position)
      (s!"Error: unexpected end of input at position {position}\n" ++ text)

/-! ## The report as it is written -/

theorem isTrimmed_trimEnd (line : List Char) : IsTrimmed line (Text.trimEnd line) := by
  refine ⟨⟨line.rtakeWhile Text.isBlank, List.rdropWhile_append_rtakeWhile.symm, ?_⟩, ?_⟩
  · intro c
    exact List.mem_rtakeWhile_imp
  · intro c last
    obtain ⟨some, rfl⟩ := List.mem_getLast?_eq_getLast last
    exact List.rdropWhile_last_not Text.isBlank line some

theorem IsTrimmed.eq_trimEnd {line trimmed : List Char} (trims : IsTrimmed line trimmed) :
    trimmed = Text.trimEnd line := by
  obtain ⟨⟨blanks, rfl, blank⟩, solid⟩ := trims
  have front : trimmed.reverse.dropWhile Text.isBlank = trimmed.reverse := by
    rw [List.dropWhile_eq_self_iff]
    intro some
    refine solid _ ?_
    rw [List.getLast?_eq_head?_reverse, List.head?_eq_getElem?]
    exact List.getElem?_eq_getElem some
  rw [Text.trimEnd, List.reverse_append, List.dropWhile_append_of_pos, front, List.reverse_reverse]
  simpa using blank

/-- The column that some columns begin with takes its cells, and the other columns theirs. -/
theorem columnsWidth_succ (chars : List Char) (start count : Nat) :
    Text.columnsWidth chars start (count + 1) =
      chars[start]?.elim 1 (Text.cellWidth start) + Text.columnsWidth chars (start + 1) count := by
  have later : chars.drop (start + 1) = (chars.drop start).tail := List.tail_drop.symm
  have first : chars[start]? = (chars.drop start).head? := List.head?_drop.symm
  rw [Text.columnsWidth, Text.columnsWidth, later, first]
  cases chars.drop start with
  | nil => simp [Nat.add_comm 1]
  | cons c rest =>
    simp only [List.take_succ_cons, List.zipIdx_cons, List.foldl_cons, List.length_cons,
      Nat.add_sub_add_right, List.tail_cons, List.head?_cons, Option.elim_some]
    rw [Nat.add_comm]
    simp only [← List.foldl_map]
    exact List.foldl_assoc

theorem columnsWidth_eq_cells (chars : List Char) (start count : Nat) :
    Text.columnsWidth chars start count = cells chars start count := by
  induction count generalizing start with
  | zero => simp [Text.columnsWidth, cells]
  | succ count ih =>
    rw [columnsWidth_succ, ih, cells, cells, List.range'_succ, List.foldr_cons]

theorem ofList_withBlanks (line : List Char) :
    String.ofList (Text.withBlanks line) = spelledOut line := by
  rw [Text.withBlanks, spelledOut, List.mapIdx_eq_zipIdx_map, List.flatMap_def]

theorem message_unexpectedToken (found : Symbol) (position : Nat) :
    (GrammarError.unexpectedToken found position).message =
      "unexpected token `" ++ String.singleton found.char ++ "` at position " ++
        toString position := by
  rw [← Decimal.text_eq_toString]
  rfl

theorem message_unexpectedEnd (position : Nat) : (GrammarError.unexpectedEnd position).message =
    "unexpected end of input at position " ++ toString position := by
  rw [← Decimal.text_eq_toString]
  rfl

theorem diagnostic_eq_pointer (name formula : String) (error : GrammarError) :
    let place := Text.placeOf error.position formula.toList
    let marker := marker error
    diagnostic name formula error = "Error: " ++ error.message ++ "\n" ++
      pointer name place.number place.column (Text.trimEnd place.line) marker.sign marker.reach
        marker.remark := by
  intro place marker
  unfold diagnostic pointer
  apply String.toList_inj.mp
  simp [copies, spaces, dashes, columnsWidth_eq_cells, ofList_withBlanks, Decimal.text_eq_toString,
    place, marker]

/-- A position is pointed at in the place that is found for it. -/
theorem pointsAt_iff {name formula sign remark text : String} {position extent : Nat} :
    let place := Text.placeOf position formula.toList
    PointsAt name formula position sign extent remark text ↔
      text = pointer name place.number place.column (Text.trimEnd place.line) sign extent remark := by
  intro place
  obtain ⟨line, located, shown⟩ := Text.exists_located_placeOf position formula.toList
  constructor
  · rintro ⟨located', trims⟩
    have there := located'.unique located rfl rfl
    injection there with number column line
    rw [trims.eq_trimEnd, number, column, line, shown]
  · rintro rfl
    have trims := isTrimmed_trimEnd line
    rw [shown] at trims
    exact .place located trims

/-- The report on a grammar error is the one that is written. -/
theorem diagnoses_iff {name formula text : String} {error : GrammarError} :
    Diagnoses name formula error text ↔ text = diagnostic name formula error := by
  rw [diagnostic_eq_pointer]
  cases error with
  | unexpectedToken found position =>
    have heading : "Error: " ++ (GrammarError.unexpectedToken found position).message ++ "\n" =
        "Error: unexpected token `" ++ String.singleton found.char ++
          s!"` at position {position}\n" := by
      rw [message_unexpectedToken]
      apply String.toList_inj.mp
      simp
    rw [heading]
    constructor
    · rintro ⟨points⟩
      rw [pointsAt_iff.mp points]
      rfl
    · rintro rfl
      exact .unexpectedToken (pointsAt_iff.mpr rfl)
  | unexpectedEnd position =>
    have heading : "Error: " ++ (GrammarError.unexpectedEnd position).message ++ "\n" =
        s!"Error: unexpected end of input at position {position}\n" := by
      rw [message_unexpectedEnd]
      apply String.toList_inj.mp
      simp
    rw [heading]
    constructor
    · rintro (_ | ⟨points⟩)
      rw [pointsAt_iff.mp points]
      rfl
    · rintro rfl
      exact .unexpectedEnd (pointsAt_iff.mpr rfl)

end Arithmetization.Report
