import Arithmetization.Proofs.Analysis.Outcome
import Arithmetization.Proofs.Grammar.Size
import Arithmetization.Proofs.Measures
import Arithmetization.Report.Text

/-! # Bounds on an analysis

The formula of an analysis fits into the table, its symbols are among its characters, and its
expression has at most one node more than symbols were read. So everything that is computed from the
expression is bounded by the capacity. The remark on unread symbols in the report counts what the
grammar left over; the strict grammar leaves nothing.
-/

namespace Arithmetization

namespace Report

theorem mem_unreadLines_iff {unread : Nat} {line : Line} :
    line ∈ unreadLines unread ↔ 0 < unread ∧ line =
      .warning (Decimal.text unread ++ " trailing tokens are not part of the expression") := by
  rw [unreadLines, Nat.pos_iff_ne_zero]
  by_cases none : unread = 0
  · simp [none]
  · simp [none]

/-- The report remarks on unread symbols exactly if there are some, and gives their number. -/
theorem warning_mem_analysisLines_iff {width : Nat} {analysis : Analysis} {text : String} :
    Line.warning text ∈ analysisLines width analysis ↔
      ∃ unread, 0 < unread ∧ analysis.consumed + unread = analysis.symbols.length ∧
        text = Decimal.text unread ++ " trailing tokens are not part of the expression" := by
  -- Only the remark is a warning.
  have only : Line.warning text ∈ analysisLines width analysis ↔
      Line.warning text ∈ unreadLines (analysis.symbols.length - analysis.consumed) := by
    simp [analysisLines, stepLines, numberLines]
  rw [only, mem_unreadLines_iff, Line.warning.injEq]
  constructor
  · rintro ⟨some, same⟩
    exact ⟨_, some, by omega, same⟩
  · rintro ⟨unread, some, total, same⟩
    have difference : analysis.symbols.length - analysis.consumed = unread := by omega
    rw [difference]
    exact ⟨some, same⟩

end Report

/-- The parts of an analysis fit together and are bounded by the settings. -/
structure Analysis.Coherent (settings : Settings) (formula : String) (analysis : Analysis) :
    Prop where
  consumed_le : analysis.consumed ≤ analysis.symbols.length
  symbols_le : analysis.symbols.length ≤ analysis.encoding.items.length
  /-- Every character has an item. -/
  items : analysis.encoding.items.length = formula.length
  fits : formula.length ≤ settings.primeCapacity
  /-- Every node has a step. -/
  steps : analysis.steps.length = analysis.root.size
  size_le : analysis.root.size ≤ analysis.consumed + 1
  depth_le_size : analysis.root.depth ≤ analysis.root.size
  depth_le : analysis.root.depth ≤ settings.primeCapacity + 1
  /-- The strict grammar reads all symbols, and each node from one of them. -/
  strict : settings.strict = true →
    analysis.consumed = analysis.symbols.length ∧ analysis.root.size ≤ analysis.consumed
  /-- The report remarks on unread symbols only under permissive settings, whatever its width; the
  number that it gives is what is missing to the number of all symbols. -/
  remark : ∀ width text, .warning text ∈ Report.analysisLines width analysis ↔
    settings.strict = false ∧ ∃ unread, 0 < unread ∧
      analysis.consumed + unread = analysis.symbols.length ∧
        text = Decimal.text unread ++ " trailing tokens are not part of the expression"

namespace Analyzer

/-- What is read under any settings has at most one node more than symbols were read, under strict
settings at most as many nodes as symbols. -/
theorem nodeCount_le_of_read {analyzer : Analyzer} {tokens : List Token} {length consumed : Nat}
    {root : Expression} (found : analyzer.read tokens length = .ok (root, consumed)) :
    consumed ≤ tokens.length ∧ root.nodeCount ≤ consumed + 1 ∧
      (analyzer.settings.strict = true → consumed = tokens.length ∧ root.nodeCount ≤ consumed) := by
  have parsed := parse_of_read found
  have consumed_le := Permissive.consumed_le_length (tokens.map Token.symbol)
  have size_le := Permissive.nodeCount_parse_le (tokens.map Token.symbol)
  rw [parsed, List.length_map] at consumed_le
  rw [parsed] at size_le
  refine ⟨consumed_le, size_le, ?_⟩
  intro strict
  obtain ⟨accepted, rfl⟩ := (read_of_strict strict).mp found
  exact ⟨rfl, Strict.nodeCount_le_of_parse accepted⟩

theorem coherent_of_run {settings : Settings} {formula : String} {analysis : Analysis}
    (analyzed : run ⟨settings, ⟨.first settings.primeCapacity⟩⟩ formula = .ok analysis) :
    analysis.Coherent settings formula := by
  obtain ⟨fits, root, consumed, found, rfl⟩ := (run_first_eq_ok_iff settings).mp analyzed
  obtain ⟨consumed_le, size_le, strict⟩ := nodeCount_le_of_read found
  have scanned := Token.length_scan_le formula
  have items : (encodingOf formula).items.length = formula.length :=
    (length_itemsFrom 0 formula.toList).trans String.length_toList
  have height_le := root.height_le_nodeCount
  have shallow : root.height ≤ settings.primeCapacity + 1 := by omega
  constructor
  case items => exact items
  case fits => exact fits
  case consumed_le => rwa [List.length_map]
  case symbols_le => rwa [List.length_map, items]
  case steps => rw [Expression.length_construct, Expression.size_eq_nodeCount]
  case size_le => rwa [Expression.size_eq_nodeCount]
  case depth_le_size => rwa [Expression.depth_eq_height, Expression.size_eq_nodeCount]
  case depth_le => rwa [Expression.depth_eq_height]
  case strict => rwa [List.length_map, Expression.size_eq_nodeCount]
  case remark =>
    intro width text
    rw [Report.warning_mem_analysisLines_iff, List.length_map]
    constructor
    · rintro ⟨unread, some, total, same⟩
      refine ⟨?_, unread, some, total, same⟩
      by_contra mode
      obtain ⟨all, _⟩ := strict (eq_true_of_ne_false mode)
      dsimp only at total
      omega
    · rintro ⟨_, remark⟩
      exact remark

/-- Under all settings of an admissible capacity, the parts of an analysis fit together, and the
capacity bounds the depth of its expression. -/
theorem run_coherent (settings : Settings) (bound : settings.primeCapacity ≤ Encoder.maxCapacity) :
    ∃ analyzer, ofSettings settings = .ok analyzer ∧ settings.primeCapacity + 1 ≤ 4097 ∧
      ∀ formula analysis, analyzer.run formula = .ok analysis →
        analysis.Coherent settings formula := by
  refine ⟨_, ofSettings_eq_ok bound, Nat.succ_le_succ bound, ?_⟩
  intro formula analysis analyzed
  exact coherent_of_run analyzed

/-- A quantifier at the end of the text adds two nodes with one symbol, so the bound on the size is
reached. -/
theorem run_coherent_cutShort : 3 ≤ Encoder.maxCapacity ∧ ∃ analyzer analysis,
    ofSettings ⟨3, false⟩ = .ok analyzer ∧ analyzer.run "¬#∀" = .ok analysis ∧
      analysis.Coherent ⟨3, false⟩ "¬#∀" ∧ analysis.consumed = 2 ∧ analysis.root.nodeCount = 3 := by
  obtain ⟨analyzer, built, _, coherent⟩ := run_coherent ⟨3, false⟩ (by decide)
  obtain rfl := eq_of_ofSettings built
  have parsed : Permissive.parse ((Token.scan "¬#∀").map Token.symbol) =
      ⟨.negation (.quantified .universal none .missing), 2⟩ := rfl
  have analyzed := (run_first_eq_ok_iff ⟨3, false⟩).mpr
    ⟨by decide, _, 2, (read_of_permissive rfl).mpr parsed, rfl⟩
  exact ⟨by decide, _, _, built, analyzed, coherent _ _ analyzed, rfl, rfl⟩

end Analyzer

end Arithmetization
