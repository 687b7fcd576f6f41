import Arithmetization.Proofs.Analysis.Outcome
import Arithmetization.Proofs.Grammar.Viability

/-! # Which formulas are analyzed

The settings decide whether a formula is analyzed, and not what is found out about it: every formula
has one analysis, over the sequence of all primes and under the permissive grammar. A formula that
is too long is refused for its length, whatever its grammar is.
-/

namespace Arithmetization

/-- The analysis of a formula, under whatever settings it is analyzed. -/
noncomputable def analysisOf (formula : String) : Analysis :=
  let parsed := Permissive.parse (symbolsOf formula)
  ⟨formula, symbolsOf formula, parsed.consumed, parsed.root, parsed.root.construct,
    encodingOf formula⟩

namespace Strict

/-- A formula whose symbols are no sentence has a first offence. -/
theorem exists_firstOffence {formula : String} (foreign : ¬ IsSentence (symbolsOf formula)) :
    ∃ error, FirstOffence (Token.scan formula) formula.length error := by
  cases parsed : parseFormula formula with
  | ok e => exact (foreign (exists_parseFormula_iff.mp ⟨e, parsed⟩)).elim
  | error error => exact ⟨error, firstOffence_of_parse parsed⟩

end Strict

namespace Analyzer

variable {settings : Settings} {formula : String}

/-- A formula that fits and, under strict settings, is a sentence is analyzed. -/
theorem run_first_of_fits (fits : formula.length ≤ settings.primeCapacity)
    (wellFormed : settings.strict = true → Strict.IsSentence (symbolsOf formula)) :
    run ⟨settings, ⟨.first settings.primeCapacity⟩⟩ formula = .ok (analysisOf formula) := by
  obtain ⟨root, consumed, found⟩ : ∃ root consumed,
      read ⟨settings, ⟨.first settings.primeCapacity⟩⟩ (Token.scan formula) formula.length =
        .ok (root, consumed) := by
    cases mode : settings.strict with
    | false => exact ⟨_, _, (read_of_permissive mode).mpr rfl⟩
    | true =>
      obtain ⟨root, accepted⟩ := Strict.exists_parseFormula_iff.mpr (wellFormed mode)
      exact ⟨root, _, (read_of_strict mode).mpr ⟨accepted, rfl⟩⟩
  refine (run_first_eq_ok_iff settings).mpr ⟨fits, root, consumed, found, ?_⟩
  have parsed := parse_of_read found
  rw [Token.map_symbol_scan] at parsed ⊢
  rw [analysisOf, parsed]

theorem run_first_of_long (long : settings.primeCapacity < formula.length) :
    run ⟨settings, ⟨.first settings.primeCapacity⟩⟩ formula =
      .error (.primesExhausted formula.length settings.primeCapacity) := by
  rw [run, Encoder.encode_first_of_lt long]

theorem run_first_of_malformed {error : GrammarError}
    (fits : formula.length ≤ settings.primeCapacity) (strict : settings.strict = true)
    (offence : Strict.FirstOffence (Token.scan formula) formula.length error) :
    run ⟨settings, ⟨.first settings.primeCapacity⟩⟩ formula = .error (.malformedGrammar error) := by
  have encoded := Encoder.encode_first_eq_ok_iff.mpr ⟨fits, rfl⟩
  have refused := Strict.parse_eq_error_iff.mpr offence
  rw [run, encoded]
  simp only [read, if_pos strict, refused, Except.map]

end Analyzer

end Arithmetization
