import Arithmetization.Proofs.Analysis.Outcome
import Arithmetization.Proofs.Construction.PostOrder
import Arithmetization.Proofs.Printing.Colors
import Arithmetization.Report.Text

/-! # Colors of reports

A report is sent to a terminal line by line, and each line is visible as its plain text. Headings
and warnings are painted as a whole and formulas piece by piece; what else a line holds is sent as
it is, so it must be free of escape characters. Of the parts of an analysis only the formula, and
with it the characters of the items, may hold one: steps and numbers are written with characters
of their own.
-/

namespace Arithmetization

open Terminal

namespace Report

/-! ## Lines -/

theorem Line.visible_colored {line : Line} (clear : escape ∉ line.plain) (rest : List Char) :
    visible (line.colored ++ rest) = line.plain ++ visible rest := by
  have edges : escape ∉ indent ∧ escape ∉ ['\n'] := by decide
  cases line with
  | heading title => exact visible_paint headingStyle clear rest
  | warning text => exact visible_paint warningStyle clear rest
  | detail text => exact visible_append clear rest
  | formula root =>
    simp only [colored, plain, List.append_assoc]
    rw [visible_append edges.1, Piece.visible_flatMap_painted, visible_append edges.2]

theorem visible_flatMap_colored {lines : List Line}
    (clear : ∀ line ∈ lines, escape ∉ line.plain) :
    visible (lines.flatMap Line.colored) = lines.flatMap Line.plain := by
  induction lines with
  | nil => exact visible_nil
  | cons line lines ih =>
    obtain ⟨first, clear⟩ := List.forall_mem_cons.mp clear
    rw [List.flatMap_cons, Line.visible_colored first, ih clear, List.flatMap_cons]

/-- Without its control sequences, a report in colors is the report without colors. -/
theorem strip_render {lines : List Line} (clear : ∀ line ∈ lines, escape ∉ line.plain) :
    strip (render true lines) = render false lines := by
  simp only [strip, render, String.toList_ofList, if_true, Bool.false_eq_true, if_false]
  exact congrArg String.ofList (visible_flatMap_colored clear)

end Report

/-! ## Parts of a report -/

theorem Terminal.clear_append {first second : String} :
    escape ∉ (first ++ second).toList ↔ escape ∉ first.toList ∧ escape ∉ second.toList := by
  rw [String.toList_append, List.mem_append, not_or]

theorem Decimal.clear_text (n : Nat) : escape ∉ (text n).toList := by
  rw [text, String.toList_ofList]
  exact notMem_digits rfl n

theorem Symbol.clear_text (s : Symbol) : escape ∉ s.text.toList := by
  have symbols : ∀ s ∈ Symbol.all, escape ∉ s.text.toList := by decide
  exact symbols s s.mem_all

namespace Step

theorem clear_functionName (index : Nat) : escape ∉ (functionName index).toList :=
  clear_append.mpr ⟨by decide, Decimal.clear_text index⟩

theorem clear_symbolText (symbol : Option Symbol) : escape ∉ (symbolText symbol).toList := by
  cases symbol with
  | none => decide
  | some s => exact s.clear_text

/-- The texts of the step of a node are free of escape characters. -/
theorem clear_ofNode (index : Nat) (node : Expression) (input : Nat → Nat) :
    escape ∉ (ofNode index node input).label.toList ∧
      escape ∉ (ofNode index node input).description.toList := by
  cases node with
  | atom symbol =>
    by_cases zero : symbol = some .zero
    · subst zero
      simp only [ofNode, ofAtom, clear_append, clear_functionName]
      decide
    · simp only [ofNode, ofAtom.eq_2 index symbol zero, clear_append, clear_functionName,
        clear_symbolText]
      decide
  | successor operand =>
    simp only [ofNode, ofSuccessor, clear_append, clear_functionName]
    decide
  | negation operand =>
    simp only [ofNode, ofNegation, clear_append, clear_functionName]
    decide
  | binary op left right =>
    simp only [ofNode, ofBinary, clear_append, clear_functionName]
    cases op <;> decide
  | quantified q bound body =>
    simp only [ofNode, ofQuantified, clear_append, clear_functionName, clear_symbolText]
    cases q <;> decide

/-- The texts of the steps of a construction are free of escape characters. -/
theorem clear_of_mem_construct {e : Expression} {step : Step} (member : step ∈ e.construct) :
    escape ∉ step.label.toList ∧ escape ∉ step.description.toList := by
  rw [e.construct_eq_stepsFrom, e.stepsFrom_eq_map] at member
  obtain ⟨place, -, rfl⟩ := List.mem_map.mp member
  exact clear_ofNode _ _ _

end Step

/-- The line of an item begins with its character and is clear after it. -/
theorem Item.clear_line {item : Item} (clear : item.char ≠ escape) : escape ∉ item.line.toList := by
  simp only [line, clear_append, Decimal.clear_text, String.toList_singleton,
    List.mem_singleton, clear.symm]
  decide

/-- The items of an encoded formula are for characters of the formula. -/
theorem Encoder.char_mem_of_encode {encoder : Encoder} {formula : String} {encoding : Encoding}
    (encoded : encoder.encode formula = .ok encoding) :
    ∀ item ∈ encoding.items, item.char ∈ formula.toList := by
  obtain ⟨-, rfl⟩ := encode_eq_ok_iff.mp encoded
  intro item member
  obtain ⟨k, inside, rfl⟩ := List.mem_iff_getElem.mp member
  simp only [Encoding.ofItems, List.getElem_zipWith, Item.ofChar]
  exact List.getElem_mem _

namespace Text

theorem mem_of_mem_wrapAt {width : Nat} {text line : List Char} {c : Char}
    (member : line ∈ wrapAt width text) (inside : c ∈ line) : c ∈ text := by
  fun_induction wrapAt width text with
  | case1 text short =>
    rwa [List.mem_singleton.mp member] at inside
  | case2 text long ih =>
    rcases List.mem_cons.mp member with rfl | later
    · exact List.mem_of_mem_take inside
    · exact List.mem_of_mem_drop (ih later)

theorem eq_or_mem_of_mem_intersperse {separator c : Char} {text : List Char}
    (member : c ∈ text.intersperse separator) : c = separator ∨ c ∈ text := by
  induction text with
  | nil => contradiction
  | cons first text ih =>
    cases text with
    | nil => exact .inr member
    | cons second text =>
      rw [List.intersperse_cons_cons, List.mem_cons, List.mem_cons] at member
      rcases member with rfl | rfl | later
      · exact .inr List.mem_cons_self
      · exact .inl rfl
      · exact (ih later).imp_right (List.mem_cons_of_mem first)

end Text

namespace Report

/-! ## Reports on analyses -/

theorem clear_heading {title : String} (clear : escape ∉ title.toList) :
    escape ∉ (Line.heading title).plain := by
  have ending : escape ∉ ['\n'] := by decide
  simp only [Line.plain, List.mem_append, clear, ending, or_false, not_false_eq_true]

theorem clear_detail {text : List Char} (clear : escape ∉ text) :
    escape ∉ (Line.detail text).plain := by
  have edges : escape ∉ indent ∧ escape ∉ ['\n'] := by decide
  simp only [Line.plain, List.mem_append, clear, edges.1, edges.2, or_false, not_false_eq_true]

theorem clear_formula (root : Expression) : escape ∉ (Line.formula root).plain := by
  apply clear_detail
  intro member
  obtain ⟨piece, -, same⟩ := List.mem_map.mp member
  exact piece.char_ne_escape same

theorem clear_unreadLines (unread : Nat) : ∀ line ∈ unreadLines unread, escape ∉ line.plain := by
  intro line member
  rw [unreadLines] at member
  split at member
  · contradiction
  · rw [List.mem_singleton.mp member]
    exact clear_detail (clear_append.mpr ⟨Decimal.clear_text unread, by decide⟩)

theorem clear_stepLines {steps : List Step}
    (clear : ∀ step ∈ steps, escape ∉ step.label.toList ∧ escape ∉ step.description.toList) :
    ∀ line ∈ stepLines steps, escape ∉ line.plain := by
  have spaces (count : Nat) : escape ∉ List.replicate count ' ' := by
    intro member
    exact absurd (List.eq_of_mem_replicate member) (by decide)
  have gap : escape ∉ indent := by decide
  intro line member
  obtain ⟨step, inside, rfl⟩ := List.mem_map.mp member
  obtain ⟨label, description⟩ := clear step inside
  apply clear_detail
  simp only [padded, List.mem_append, label, description, gap, spaces, or_false,
    not_false_eq_true]

theorem clear_numberLines (width n : Nat) :
    ∀ line ∈ numberLines width (Decimal.digits n), escape ∉ line.plain := by
  intro line member
  obtain ⟨text, cut, rfl⟩ := List.mem_map.mp member
  exact clear_detail fun inside =>
    Decimal.notMem_digits rfl n (Text.mem_of_mem_wrapAt cut inside)

theorem clear_tokens (symbols : List Symbol) :
    escape ∉ (symbols.map Symbol.char).intersperse ' ' := by
  intro member
  rcases Text.eq_or_mem_of_mem_intersperse member with same | inside
  · exact absurd same (by decide)
  · obtain ⟨s, -, same⟩ := List.mem_map.mp inside
    exact (Piece.symbol s).char_ne_escape same

/-- Every line of the report is clear if the formula, the texts of the steps and the characters of
the items are. -/
theorem clear_analysisLines (width : Nat) {analysis : Analysis}
    (formula : escape ∉ analysis.formula.toList)
    (steps : ∀ step ∈ analysis.steps,
      escape ∉ step.label.toList ∧ escape ∉ step.description.toList)
    (items : ∀ item ∈ analysis.encoding.items, item.char ≠ escape) :
    ∀ line ∈ analysisLines width analysis, escape ∉ line.plain := by
  have counted {opening closing : String} (n : Nat) (first : escape ∉ opening.toList)
      (last : escape ∉ closing.toList) :
      escape ∉ (Line.heading (opening ++ Decimal.text n ++ closing)).plain :=
    clear_heading (clear_append.mpr
      ⟨clear_append.mpr ⟨first, Decimal.clear_text n⟩, last⟩)
  have itemLines : ∀ line ∈ analysis.encoding.items.map fun item => Line.detail item.line.toList,
      escape ∉ line.plain := by
    intro line member
    obtain ⟨item, inside, rfl⟩ := List.mem_map.mp member
    exact clear_detail (Item.clear_line (items item inside))
  simp only [analysisLines, List.forall_mem_append, List.forall_mem_cons, List.not_mem_nil,
    false_implies, implies_true, and_true, and_assoc]
  refine ⟨clear_heading (by decide), clear_detail formula,
    counted _ (by decide) (by decide), clear_detail (clear_tokens _), clear_unreadLines _,
    clear_heading (by decide), clear_formula analysis.root,
    counted _ (by decide) (by decide), clear_stepLines steps,
    clear_heading (by decide), itemLines,
    counted _ (by decide) (by decide), clear_numberLines width _⟩

/-- The report on an analyzed formula is clear if the formula is. -/
theorem clear_analysisLines_of_run (width : Nat) {analyzer : Analyzer} {formula : String}
    {analysis : Analysis} (analyzed : analyzer.run formula = .ok analysis)
    (clear : escape ∉ formula.toList) :
    ∀ line ∈ analysisLines width analysis, escape ∉ line.plain := by
  obtain ⟨encoding, root, consumed, encoded, -, rfl⟩ := Analyzer.run_eq_ok_iff.mp analyzed
  apply clear_analysisLines width clear
  case steps => exact fun step => Step.clear_of_mem_construct
  case items =>
    intro item member same
    exact clear (same ▸ Encoder.char_mem_of_encode encoded item member)

/-- Colors change nothing but the style. Without its control sequences, an expression in colors is
its plain text, and so is the report on an analysis of a formula without escape characters, whatever
the width of the report. In an expression, every style is on for one symbol or parenthesis and off
before the next style begins, so each character is displayed in the style of its own piece alone and
what follows in none. -/
theorem colors_only_style :
    (∀ e : Expression, strip e.coloredText = e.text ∧
      StyledSingly (signals e.coloredText.toList) ∧
      ∀ rest, display [] (signals (e.coloredText.toList ++ rest)) =
        e.layout.map (fun piece => (piece.char, piece.settings)) ++ display [] (signals rest)) ∧
    ∀ (analyzer : Analyzer) (formula : String) (analysis : Analysis),
      analyzer.run formula = .ok analysis → escape ∉ formula.toList →
        ∀ width, strip (analysisText width true analysis) = analysisText width false analysis := by
  constructor
  · intro e
    have received (rest : List Char) : signals (e.coloredText.toList ++ rest) =
        e.layout.flatMap Piece.signals ++ signals rest := by
      rw [Expression.coloredText, String.toList_ofList, Piece.signals_flatMap_painted]
    refine ⟨?_, ?_, fun rest => ?_⟩
    · have shown := Piece.visible_flatMap_painted e.layout []
      rw [strip, Expression.coloredText, Expression.text, String.toList_ofList]
      rw [List.append_nil, visible_nil, List.append_nil] at shown
      rw [shown]
    · have whole := received []
      rw [List.append_nil, signals, List.append_nil] at whole
      rw [whole]
      exact .of_pieces e.layout
    · rw [received, Piece.display_flatMap_signals]
  · intro analyzer formula analysis analyzed clear width
    exact strip_render (clear_analysisLines_of_run width analyzed clear)

/-- A formula that begins like the end of a control sequence, with a symbol that is not read, on a
terminal that has room for three digits on a line. -/
theorem colors_only_style_bracket : ∃ analysis : Analysis,
    Analyzer.run ⟨⟨6, false⟩, ⟨.first 6⟩⟩ "[1m¬xy" = .ok analysis ∧ escape ∉ "[1m¬xy".toList ∧
      analysis.consumed = 2 ∧
      strip (analysisText 5 true analysis) = analysisText 5 false analysis ∧
      strip analysis.root.coloredText = "¬x" := by
  have analyzed := (Analyzer.run_first_eq_ok_iff ⟨6, false⟩).mpr
    ⟨show "[1m¬xy".length ≤ 6 by decide, .negation (.atom (some (.letter .x))), 2,
      (Analyzer.read_of_permissive rfl).mpr (by decide), rfl⟩
  obtain ⟨expressions, reports⟩ := colors_only_style
  exact ⟨_, analyzed, by decide, rfl, reports _ _ _ analyzed (by decide) 5,
    (expressions (.negation (.atom (some (.letter .x))))).1.trans (by decide)⟩

end Report

end Arithmetization
