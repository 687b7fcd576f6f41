import Arithmetization.Proofs.Encoding.Classification
import Arithmetization.Proofs.Json.Lines
import Arithmetization.Report.Structured

/-! # What a structured report says

A structured report is described by the record that it holds, with the keys of its members and the
names of kinds, operators and quantifiers spelled out. A report has the lines of its record and ends
with a line break. So the description says what a report has to be without the functions that build
records, and only one text is described.
-/

namespace Arithmetization.Report

/-! ## Names -/

/-- The name of a kind of step. -/
inductive NamesKind : StepKind → String → Prop where
  | basic : NamesKind .basic "basic"
  | composition : NamesKind .composition "composition"
  | minimization : NamesKind .minimization "minimization"

/-- The name of an operator. -/
inductive NamesOperator : Operator → String → Prop where
  | disjunction : NamesOperator .disjunction "Or"
  | conjunction : NamesOperator .conjunction "And"
  | implication : NamesOperator .implication "Implies"
  | equivalence : NamesOperator .equivalence "Iff"
  | equality : NamesOperator .equality "Equal"
  | addition : NamesOperator .addition "Add"
  | multiplication : NamesOperator .multiplication "Mul"

/-- The name of a quantifier. -/
inductive NamesQuantifier : Quantifier → String → Prop where
  | universal : NamesQuantifier .universal "Universal"
  | existential : NamesQuantifier .existential "Existential"

theorem namesKind_iff {kind : StepKind} {name : String} :
    NamesKind kind name ↔ name = kind.name := by
  constructor
  · rintro ⟨⟩ <;> rfl
  · rintro rfl
    cases kind <;> constructor

theorem namesOperator_iff {op : Operator} {name : String} :
    NamesOperator op name ↔ name = operatorName op := by
  constructor
  · rintro ⟨⟩ <;> rfl
  · rintro rfl
    cases op <;> constructor

theorem namesQuantifier_iff {q : Quantifier} {name : String} :
    NamesQuantifier q name ↔ name = quantifierName q := by
  constructor
  · rintro ⟨⟩ <;> rfl
  · rintro rfl
    cases q <;> constructor

/-! ## Records -/

/-- The value of a symbol, or of none. -/
inductive HoldsSymbol : Option Symbol → Json → Prop where
  | given (symbol : Symbol) : HoldsSymbol (some symbol) (.text (String.singleton symbol.char))
  | missing : HoldsSymbol none .null

/-- The record of an expression has one member, which is named for the form of the root. -/
inductive HoldsExpression : Expression → Json → Prop where
  | atom {symbol : Option Symbol} {value : Json} (held : HoldsSymbol symbol value) :
    HoldsExpression (.atom symbol) (.record [("Atom", value)])
  | successor {operand : Expression} {value : Json} (below : HoldsExpression operand value) :
    HoldsExpression (.successor operand) (.record [("Successor", value)])
  | negation {operand : Expression} {value : Json} (below : HoldsExpression operand value) :
    HoldsExpression (.negation operand)
      (.record [("Unary", .record [("operator", .text "Not"), ("operand", value)])])
  | binary {op : Operator} {left right : Expression} {name : String} {leftValue rightValue : Json}
    (named : NamesOperator op name) (first : HoldsExpression left leftValue)
    (second : HoldsExpression right rightValue) :
    HoldsExpression (.binary op left right)
      (.record [("Binary", .record
        [("operator", .text name), ("left", leftValue), ("right", rightValue)])])
  | quantified {q : Quantifier} {bound : Option Symbol} {body : Expression} {name : String}
    {boundValue bodyValue : Json} (named : NamesQuantifier q name)
    (held : HoldsSymbol bound boundValue) (below : HoldsExpression body bodyValue) :
    HoldsExpression (.quantified q bound body)
      (.record [("Quantifier", .record
        [("kind", .text name), ("variable", boundValue), ("body", bodyValue)])])

/-- The record of a step. -/
inductive HoldsStep : Step → Json → Prop where
  | members {index : Nat} {kind : StepKind} {name label description : String} {inputs : List Nat}
    (named : NamesKind kind name) : HoldsStep ⟨index, kind, label, description, inputs⟩
      (.record [("index", .number index), ("kind", .text name), ("label", .text label),
        ("description", .text description), ("inputs", .list (inputs.map .number))])

/-- The record of an item, with the factor as a decimal text. -/
inductive HoldsItem : Item → Json → Prop where
  | members {char : Char} {code prime factor : Nat} : HoldsItem ⟨char, code, prime, factor⟩
      (.record [("symbol", .text (String.singleton char)), ("code", .number code),
        ("prime", .number prime), ("factor", .text (toString factor))])

/-- The record of an analysis, with the number as a decimal text. -/
inductive HoldsAnalysis : Analysis → Json → Prop where
  | members {formula : String} {symbols : List Symbol} {consumed number : Nat} {root : Expression}
    {steps : List Step} {items : List Item} {tree : Json} {stepValues itemValues : List Json}
    (held : HoldsExpression root tree) (listed : List.Forall₂ HoldsStep steps stepValues)
    (itemized : List.Forall₂ HoldsItem items itemValues) :
    HoldsAnalysis ⟨formula, symbols, consumed, root, steps, ⟨items, number⟩⟩
      (.record [("formula", .text formula),
        ("tokens", .list (symbols.map fun s => .text (String.singleton s.char))),
        ("consumed", .number consumed), ("ast", tree), ("steps", .list stepValues),
        ("encoding", .record
          [("items", .list itemValues), ("godel_number", .text (toString number))])])

theorem holdsSymbol_iff {symbol : Option Symbol} {value : Json} :
    HoldsSymbol symbol value ↔ value = optionalSymbol symbol := by
  constructor
  · rintro ⟨⟩ <;> rfl
  · rintro rfl
    cases symbol <;> constructor

theorem holdsExpression_iff {root : Expression} {value : Json} :
    HoldsExpression root value ↔ value = expressionJson root := by
  constructor
  · intro holds
    induction holds with
    | atom held => rw [holdsSymbol_iff.mp held, expressionJson]
    | successor below ih => rw [ih, expressionJson]
    | negation below ih => rw [ih, expressionJson]
    | binary named first second ihFirst ihSecond =>
      rw [ihFirst, ihSecond, namesOperator_iff.mp named, expressionJson]
    | quantified named held below ih =>
      rw [ih, holdsSymbol_iff.mp held, namesQuantifier_iff.mp named, expressionJson]
  · rintro rfl
    induction root with
    | atom symbol => exact .atom (holdsSymbol_iff.mpr rfl)
    | successor operand ih => exact .successor ih
    | negation operand ih => exact .negation ih
    | binary op left right ihLeft ihRight =>
      exact .binary (namesOperator_iff.mpr rfl) ihLeft ihRight
    | quantified q bound body ih =>
      exact .quantified (namesQuantifier_iff.mpr rfl) (holdsSymbol_iff.mpr rfl) ih

theorem holdsStep_iff {step : Step} {value : Json} :
    HoldsStep step value ↔ value = stepJson step := by
  constructor
  · rintro ⟨named⟩
    rw [namesKind_iff.mp named, stepJson]
  · rintro rfl
    exact .members (namesKind_iff.mpr rfl)

theorem holdsItem_iff {item : Item} {value : Json} :
    HoldsItem item value ↔ value = itemJson item := by
  constructor
  · rintro ⟨⟩
    rw [itemJson, Decimal.text_eq_toString]
  · rintro rfl
    rw [itemJson, Decimal.text_eq_toString]
    exact .members

/-- Values that are determined one by one are determined as a list. -/
theorem forall₂_iff_eq_map {α : Type} {holds : α → Json → Prop} {write : α → Json}
    (determined : ∀ element value, holds element value ↔ value = write element)
    {elements : List α} {values : List Json} :
    List.Forall₂ holds elements values ↔ values = elements.map write := by
  constructor
  · intro all
    induction all with
    | nil => rfl
    | cons first _ ih => rw [(determined _ _).mp first, ih, List.map_cons]
  · rintro rfl
    induction elements with
    | nil => exact .nil
    | cons element elements ih => exact .cons ((determined _ _).mpr rfl) ih

theorem holdsSteps_iff {steps : List Step} {values : List Json} :
    List.Forall₂ HoldsStep steps values ↔ values = steps.map stepJson :=
  forall₂_iff_eq_map fun step value => @holdsStep_iff step value

theorem holdsItems_iff {items : List Item} {values : List Json} :
    List.Forall₂ HoldsItem items values ↔ values = items.map itemJson :=
  forall₂_iff_eq_map fun item value => @holdsItem_iff item value

theorem holdsAnalysis_iff {analysis : Analysis} {value : Json} :
    HoldsAnalysis analysis value ↔ value = analysisValue analysis := by
  constructor
  · rintro ⟨held, listed, itemized⟩
    rw [holdsExpression_iff.mp held, holdsSteps_iff.mp listed,
      holdsItems_iff.mp itemized, ← Decimal.text_eq_toString]
    rfl
  · rintro rfl
    rw [analysisValue, encodingJson, Decimal.text_eq_toString]
    exact .members (holdsExpression_iff.mpr rfl) (holdsSteps_iff.mpr rfl)
      (holdsItems_iff.mpr rfl)

/-! ## Reports -/

/-- The report on an analysis has the lines of its record. -/
inductive RecordsAnalysis (analysis : Analysis) : String → Prop where
  | lines {value : Json} (held : HoldsAnalysis analysis value) :
    RecordsAnalysis analysis ("\n".intercalate value.lines ++ "\n")

/-- The report on a number and the formula that it was decoded as. -/
def decodedRecord (number : Nat) (formula : String) : String :=
  s!"\x7b\n  \"number\": \"{number}\",\n  \"formula\": \"{formula}\"\n\x7d\n"

theorem recordsAnalysis_iff {analysis : Analysis} {report : String} :
    RecordsAnalysis analysis report ↔ report = analysisJson analysis ++ "\n" := by
  rw [analysisJson, Json.pretty_zero_eq_intercalate]
  constructor
  · rintro ⟨held⟩
    rw [holdsAnalysis_iff.mp held]
  · rintro rfl
    exact .lines (holdsAnalysis_iff.mpr rfl)

/-- What a number is decoded as has no characters that are escaped. -/
theorem quoted_formulaOf (places : List (Option Symbol)) :
    Json.quoted (Encoder.formulaOf places) = "\"" ++ Encoder.formulaOf places ++ "\"" := by
  have symbols : ∀ s ∈ Symbol.all, Json.IsPlain s.char := by decide
  refine Json.quoted_of_isPlain fun c member => ?_
  rw [Encoder.formulaOf, String.toList_ofList] at member
  obtain ⟨place, -, rfl⟩ := List.mem_map.mp member
  cases place with
  | none => decide
  | some s => exact symbols s s.mem_all

theorem decodedJson_eq_decodedRecord (number : Nat) (places : List (Option Symbol)) :
    decodedJson (Decimal.text number) (Encoder.formulaOf places) ++ "\n" =
      decodedRecord number (Encoder.formulaOf places) := by
  have numberKey : Json.quoted "number" = "\"" ++ "number" ++ "\"" := by decide
  have formulaKey : Json.quoted "formula" = "\"" ++ "formula" ++ "\"" := by decide
  unfold decodedRecord
  rw [decodedJson, Json.pretty_zero_eq_intercalate, Decimal.text_eq_toString]
  simp only [Json.lines, Json.memberLines, Json.withKey, Json.withComma, Json.inward,
    Json.quoted_toString, quoted_formulaOf, numberKey, formulaKey]
  apply String.toList_inj.mp
  simp

end Arithmetization.Report
