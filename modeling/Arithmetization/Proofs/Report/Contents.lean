import Arithmetization.Proofs.Decimal
import Arithmetization.Proofs.Printing.Drawn
import Arithmetization.Proofs.Wrapping
import Arithmetization.Report.Text

/-! # What a text report says

A text report is described by the lines that a reader sees, with every title, every remark and every
control sequence spelled out: titles are bold and bright green, remarks are bright yellow, and all
other lines are two spaces further in. The lines of a number are not computed but known by their
lengths, which the width of the report leaves no choice about. So the description says what a report
has to be without the functions that write it, and only one text is described.
-/

namespace Arithmetization.Report

variable (width : Nat) (color : Bool)

/-! ## Lines -/

/-- The title of a section on a line of its own. -/
def titleLine (title : String) : String :=
  if color then s!"\x1b[0m\x1b[1m\x1b[38;5;10m{title}\n\x1b[0m" else s!"{title}\n"

/-- A remark on a line of its own. -/
def remarkLine (remark : String) : String :=
  if color then s!"\x1b[0m\x1b[38;5;11m  {remark}\n\x1b[0m" else s!"  {remark}\n"

/-- The lines of a section. -/
def indented (lines : List String) : String := String.join (lines.map fun line => s!"  {line}\n")

/-- A number is shown in as many digits on a line as there is room for. -/
inductive ShowsNumber (number : Nat) : String → Prop where
  | lines {lines : List (List Char)}
    (wrapped : Text.IsWrapped (max (width - 2) 1) (toString number).toList lines) :
    ShowsNumber number (indented (lines.map String.ofList))

/-- A column has exactly the room that the longest of some texts needs. -/
structure HoldsAll (texts : List String) (column : Nat) : Prop where
  wide : ∀ text ∈ texts, text.length ≤ column
  tight : texts ≠ [] → ∃ text ∈ texts, text.length = column

/-- A step on a line, with the label filled up to a column. -/
def stepLine (column : Nat) (step : Step) : String :=
  step.label ++ String.ofList (List.replicate (column - step.label.length) ' ') ++ "  " ++
    step.description

/-- An item on a line. -/
def itemLine : Item → String
  | ⟨char, code, prime, factor⟩ => String.singleton char ++ s!": {prime}^{code} = {factor}"

/-- The remark on the symbols that an expression was not read from, if there are any. -/
inductive RemarksUnread (read all : Nat) : String → Prop where
  | nothing (complete : all ≤ read) : RemarksUnread read all ""
  | remark {unread : Nat} (some : 0 < unread) (total : read + unread = all) :
    RemarksUnread read all
      (remarkLine color s!"{unread} trailing tokens are not part of the expression")

/-! ## Reports -/

/-- The report on a number and the formula that it was decoded as. -/
inductive ReportsDecoded (number : Nat) (formula : String) : String → Prop where
  | sections {digits : String} (shown : ShowsNumber width number digits) :
    ReportsDecoded number formula
      (titleLine color "Decoded formula:" ++ indented [formula] ++
        titleLine color "From Gödel number:" ++ digits)

/-- The report on an analysis. -/
inductive ReportsAnalysis (analysis : Analysis) : String → Prop where
  | sections {remark digits : String} {symbolCount stepCount digitCount column : Nat}
    (symbols : analysis.symbols.length = symbolCount) (steps : analysis.steps.length = stepCount)
    (length : (toString analysis.encoding.number).length = digitCount)
    (unread : RemarksUnread color analysis.consumed symbolCount remark)
    (labels : HoldsAll (analysis.steps.map Step.label) column)
    (shown : ShowsNumber width analysis.encoding.number digits) :
    ReportsAnalysis analysis
      (titleLine color "Formula:" ++ indented [analysis.formula] ++
        titleLine color s!"Tokens ({symbolCount}):" ++
        indented [" ".intercalate (analysis.symbols.map fun s => String.singleton s.char)] ++
        remark ++ titleLine color "Syntax tree:" ++
        indented [analysis.root.drawn color 0 true] ++
        titleLine color s!"Construction steps ({stepCount}):" ++
        indented (analysis.steps.map (stepLine column)) ++
        titleLine color "Encoding:" ++ indented (analysis.encoding.items.map itemLine) ++
        titleLine color s!"Gödel number ({digitCount} digits):" ++ digits)

/-! ## Lines as they are rendered -/

variable {width color}

theorem render_append (first rest : List Line) :
    render color (first ++ rest) = render color first ++ render color rest := by
  simp [render]

theorem render_cons (line : Line) (rest : List Line) :
    render color (line :: rest) = render color [line] ++ render color rest :=
  render_append [line] rest

theorem headingStyle_start : headingStyle.start = "\x1b[0m\x1b[1m\x1b[38;5;10m".toList := by decide

theorem warningStyle_start : warningStyle.start = "\x1b[0m\x1b[38;5;11m".toList := by decide

theorem reset_eq : Terminal.reset = "\x1b[0m".toList := by decide

theorem render_heading (title : String) :
    render color [.heading title] = titleLine color title := by
  apply String.toList_inj.mp
  cases color with
  | false => simp [render, Line.plain, titleLine]
  | true =>
    simp [render, Line.colored, titleLine, Terminal.Style.paint, headingStyle_start, reset_eq]

theorem render_warning (remark : String) :
    render color [.warning remark] = remarkLine color remark := by
  apply String.toList_inj.mp
  cases color with
  | false => simp [render, Line.plain, remarkLine, indent]
  | true =>
    simp [render, Line.colored, remarkLine, indent, Terminal.Style.paint, warningStyle_start,
      reset_eq]

theorem indented_cons (line : String) (rest : List String) :
    indented (line :: rest) = indented [line] ++ indented rest := by
  simp [indented]

/-- The lines of a section as they are rendered. -/
def details (lines : List String) : List Line := lines.map fun line => .detail line.toList

variable (color) in
theorem render_details (lines : List String) : render color (details lines) = indented lines := by
  induction lines with
  | nil => rfl
  | cons line rest ih =>
    rw [details, List.map_cons, render_cons, ← details, ih, indented_cons]
    congr 1
    apply String.toList_inj.mp
    cases color <;> simp [render, Line.plain, Line.colored, indented, indent]

theorem render_formula (root : Expression) : render color [.formula root] =
    indented [root.drawn color 0 true] := by
  rw [root.drawn_eq]
  apply String.toList_inj.mp
  cases color with
  | false => simp [render, Line.plain, indented, indent, Expression.text]
  | true => simp [render, Line.colored, indented, indent, Expression.coloredText]

/-! ## Lines of a number -/

/-- A number is shown in the lines that are cut off from its digits, and in no others. -/
theorem showsNumber_iff {number : Nat} {text : String} : ShowsNumber width number text ↔
    text = render color (numberLines width (Decimal.digits number)) := by
  have rendered : render color (numberLines width (Decimal.digits number)) =
      indented ((Text.wrap (width - 2) (Decimal.digits number)).map String.ofList) := by
    rw [← render_details color, details, List.map_map]
    simp [numberLines, indent, Function.comp_def]
  rw [rendered]
  constructor
  · rintro ⟨wrapped⟩
    rw [Decimal.toList_toString, Text.isWrapped_iff_wrap] at wrapped
    rw [wrapped]
  · rintro rfl
    refine .lines ?_
    rw [Decimal.toList_toString, Text.isWrapped_iff_wrap]

/-! ## Lines of steps -/

theorem HoldsAll.eq {texts : List String} {column column' : Nat} (some : texts ≠ [])
    (holds : HoldsAll texts column) (holds' : HoldsAll texts column') : column = column' := by
  obtain ⟨text, member, rfl⟩ := holds.tight some
  obtain ⟨text', member', rfl⟩ := holds'.tight some
  exact Nat.le_antisymm (holds'.wide text member) (holds.wide text' member')

/-- A running maximum over lengths is the number it starts from or one of the lengths. -/
theorem foldl_max_length (texts : List String) (start : Nat) :
    let column := texts.foldl (fun m text => max m text.length) start
    start ≤ column ∧ (∀ text ∈ texts, text.length ≤ column) ∧
      (column = start ∨ ∃ text ∈ texts, text.length = column) := by
  induction texts generalizing start with
  | nil => simp
  | cons text texts ih =>
    obtain ⟨above, wide, reached⟩ := ih (max start text.length)
    simp only [List.foldl_cons, List.forall_mem_cons, List.exists_mem_cons_iff]
    refine ⟨by omega, ⟨by omega, wide⟩, ?_⟩
    rcases reached with same | later
    · rcases Nat.le_total start text.length with longer | shorter
      · right
        left
        rw [same, Nat.max_eq_right longer]
      · left
        rw [same, Nat.max_eq_left shorter]
    · exact .inr (.inr later)

theorem holdsAll_foldl (texts : List String) :
    HoldsAll texts (texts.foldl (fun m text => max m text.length) 0) := by
  obtain ⟨-, wide, reached⟩ := foldl_max_length texts 0
  refine ⟨wide, fun some => ?_⟩
  rcases reached with none | reached
  · obtain ⟨text, member⟩ := List.exists_mem_of_ne_nil texts some
    have least := wide text member
    exact ⟨text, member, by omega⟩
  · exact reached

theorem toList_stepLine (column : Nat) (step : Step) : (stepLine column step).toList =
    padded column step.label ++ indent ++ step.description.toList := by
  simp [stepLine, padded, indent]

theorem render_stepLines {steps : List Step} {column : Nat}
    (labels : HoldsAll (steps.map Step.label) column) :
    render color (stepLines steps) = indented (steps.map (stepLine column)) := by
  by_cases empty : steps = []
  · subst empty
    rfl
  · have same : column = steps.foldl (fun m step => max m step.label.length) 0 := by
      have computed := holdsAll_foldl (steps.map Step.label)
      rw [List.foldl_map] at computed
      exact labels.eq (by simpa using empty) computed
    rw [← render_details color, details, List.map_map, stepLines, ← same]
    congr 1
    apply List.map_congr_left
    intro step _
    rw [Function.comp_apply, toList_stepLine]

/-! ## Lines of items and of the remark -/

theorem itemLine_eq (item : Item) : itemLine item = item.line := by
  simp [itemLine, Item.line, Decimal.text_eq_toString, ← String.toList_inj]

theorem render_unreadLines {unread : Nat} (some : 0 < unread) :
    render color (unreadLines unread) =
      remarkLine color s!"{unread} trailing tokens are not part of the expression" := by
  rw [unreadLines, if_neg (Nat.ne_of_gt some), render_warning, Decimal.text_eq_toString]
  rfl

theorem remarksUnread_iff {read all : Nat} {text : String} :
    RemarksUnread color read all text ↔ text = render color (unreadLines (all - read)) := by
  constructor
  · intro remarks
    cases remarks with
    | nothing complete =>
      rw [Nat.sub_eq_zero_of_le complete]
      rfl
    | @remark unread some total =>
      obtain rfl : all - read = unread := by omega
      exact (render_unreadLines some).symm
  · rintro rfl
    rcases Nat.lt_or_ge read all with more | complete
    · rw [render_unreadLines (Nat.sub_pos_of_lt more)]
      exact .remark (Nat.sub_pos_of_lt more) (by omega)
    · rw [Nat.sub_eq_zero_of_le complete]
      exact .nothing complete

/-! ## Whole reports -/

theorem reportsDecoded_iff {number : Nat} {formula report : String} :
    ReportsDecoded width color number formula report ↔
      report = decodedText width color (Decimal.text number) formula := by
  have sections : decodedLines width (Decimal.text number) formula =
      [.heading "Decoded formula:"] ++ details [formula] ++ [.heading "From Gödel number:"] ++
        numberLines width (Decimal.digits number) := by
    simp [decodedLines, details, Decimal.text]
  rw [decodedText, sections, render_append, render_append, render_append, render_heading,
    render_heading, render_details]
  constructor
  · rintro ⟨shown⟩
    rw [showsNumber_iff.mp shown]
  · rintro rfl
    exact .sections (showsNumber_iff.mpr rfl)

/-- The symbols on a line, with a space between each two of them. -/
theorem toList_intercalate_char (symbols : List Symbol) :
    (" ".intercalate (symbols.map fun s => String.singleton s.char)).toList =
      (symbols.map Symbol.char).intersperse ' ' := by
  induction symbols with
  | nil => simp
  | cons first rest ih =>
    cases rest with
    | nil => simp
    | cons second rest =>
      simp only [List.map_cons, String.intercalate_cons_cons, List.intersperse_cons_cons] at ih ⊢
      simp [← ih]

/-- The lines of an analysis, section by section. -/
theorem analysisLines_eq (analysis : Analysis) : analysisLines width analysis =
    [Line.heading "Formula:"] ++ details [analysis.formula] ++
      [Line.heading s!"Tokens ({analysis.symbols.length}):"] ++
      details [" ".intercalate (analysis.symbols.map fun s => String.singleton s.char)] ++
      unreadLines (analysis.symbols.length - analysis.consumed) ++
      [Line.heading "Syntax tree:"] ++ [Line.formula analysis.root] ++
      [Line.heading s!"Construction steps ({analysis.steps.length}):"] ++
      stepLines analysis.steps ++ [Line.heading "Encoding:"] ++
      details (analysis.encoding.items.map itemLine) ++
      [Line.heading s!"Gödel number ({(toString analysis.encoding.number).length} digits):"] ++
      numberLines width (Decimal.digits analysis.encoding.number) := by
  have length : (toString analysis.encoding.number).length =
      (Decimal.digits analysis.encoding.number).length := by
    rw [← String.length_toList, Decimal.toList_toString]
  simp only [length, analysisLines, details, List.map_cons, List.map_nil, List.map_map,
    Function.comp_def, toList_intercalate_char, itemLine_eq, Decimal.text_eq_toString,
    toString_string]
  simp

theorem reportsAnalysis_iff {analysis : Analysis} {report : String} :
    ReportsAnalysis width color analysis report ↔
      report = analysisText width color analysis := by
  rw [analysisText, analysisLines_eq]
  simp only [render_append, render_heading, render_details, render_formula]
  constructor
  · rintro ⟨rfl, rfl, rfl, unread, labels, shown⟩
    rw [remarksUnread_iff.mp unread, showsNumber_iff.mp shown, render_stepLines labels]
  · rintro rfl
    have labels := holdsAll_foldl (analysis.steps.map Step.label)
    rw [render_stepLines labels]
    exact .sections rfl rfl rfl (remarksUnread_iff.mpr rfl) labels (showsNumber_iff.mpr rfl)

end Arithmetization.Report
