import Arithmetization.Analysis
import Arithmetization.Proofs.Encoding.Capacity
import Arithmetization.Proofs.Grammar.Agreement

/-! # What a successful analysis is made of

An analysis succeeds if the formula fits into the table of the analyzer and the grammar of the
settings reads it. The expression that is read, and how far, is in both cases what the permissive
grammar reads: the strict grammar only refuses more.
-/

namespace Arithmetization.Analyzer

theorem ofSettings_eq_ok {settings : Settings}
    (bound : settings.primeCapacity ≤ Encoder.maxCapacity) :
    ofSettings settings = .ok ⟨settings, ⟨.first settings.primeCapacity⟩⟩ := by
  rw [ofSettings, Settings.encoder, Encoder.ofCapacity_eq_ok bound]
  rfl

/-- An analyzer of settings has an encoder of their capacity. -/
theorem eq_of_ofSettings {settings : Settings} {analyzer : Analyzer}
    (built : ofSettings settings = .ok analyzer) :
    analyzer = ⟨settings, ⟨.first settings.primeCapacity⟩⟩ := by
  rw [ofSettings, Settings.encoder] at built
  cases found : Encoder.ofCapacity settings.primeCapacity with
  | error error =>
    rw [found] at built
    contradiction
  | ok encoder =>
    rw [found, Encoder.eq_of_ofCapacity found] at built
    exact (Except.ok.inj built).symm

section

variable {analyzer : Analyzer} {formula : String} {analysis : Analysis}

/-- A formula is analyzed if it is encoded and read. -/
theorem run_eq_ok_iff : analyzer.run formula = .ok analysis ↔
    ∃ encoding root consumed, analyzer.encoder.encode formula = .ok encoding ∧
      analyzer.read (Token.scan formula) formula.length = .ok (root, consumed) ∧
      analysis = ⟨formula, (Token.scan formula).map Token.symbol, consumed, root, root.construct,
        encoding⟩ := by
  rw [run]
  cases analyzer.encoder.encode formula with
  | error error => simp
  | ok encoding =>
    cases found : analyzer.read (Token.scan formula) formula.length with
    | error error => simp [found]
    | ok parsed =>
      obtain ⟨root, consumed⟩ := parsed
      simp [found, eq_comm]

variable {tokens : List Token} {length consumed : Nat} {root : Expression}

/-- Under strict settings all tokens are read, and as the strict grammar reads them. -/
theorem read_of_strict (strict : analyzer.settings.strict = true) :
    analyzer.read tokens length = .ok (root, consumed) ↔
      Strict.parse tokens length = .ok root ∧ tokens.length = consumed := by
  rw [read, if_pos strict]
  cases Strict.parse tokens length <;> simp [Except.map]

/-- Under other settings as many tokens are read as the permissive grammar reads. -/
theorem read_of_permissive (permissive : analyzer.settings.strict = false) :
    analyzer.read tokens length = .ok (root, consumed) ↔
      Permissive.parse (tokens.map Token.symbol) = ⟨root, consumed⟩ := by
  rw [read, if_neg (by simp [permissive])]
  cases Permissive.parse (tokens.map Token.symbol)
  simp

/-- Whatever is read is what the permissive grammar reads. -/
theorem parse_of_read (found : analyzer.read tokens length = .ok (root, consumed)) :
    Permissive.parse (tokens.map Token.symbol) = ⟨root, consumed⟩ := by
  cases mode : analyzer.settings.strict with
  | true =>
    obtain ⟨accepted, rfl⟩ := (read_of_strict mode).mp found
    exact Strict.permissive_parse_of_parse accepted
  | false => exact (read_of_permissive mode).mp found

end

/-- The analyzer of admissible settings analyzes the formulas that fit and are read. -/
theorem run_first_eq_ok_iff (settings : Settings) {formula : String} {analysis : Analysis} :
    run ⟨settings, ⟨.first settings.primeCapacity⟩⟩ formula = .ok analysis ↔
      formula.length ≤ settings.primeCapacity ∧ ∃ root consumed,
        read ⟨settings, ⟨.first settings.primeCapacity⟩⟩ (Token.scan formula) formula.length =
          .ok (root, consumed) ∧
        analysis = ⟨formula, (Token.scan formula).map Token.symbol, consumed, root,
          root.construct, encodingOf formula⟩ := by
  rw [run_eq_ok_iff]
  constructor
  · rintro ⟨encoding, root, consumed, encoded, found, same⟩
    obtain ⟨fits, rfl⟩ := Encoder.encode_first_eq_ok_iff.mp encoded
    exact ⟨fits, root, consumed, found, same⟩
  · rintro ⟨fits, root, consumed, found, same⟩
    exact ⟨_, root, consumed, Encoder.encode_first_eq_ok_iff.mpr ⟨fits, rfl⟩, found, same⟩

end Arithmetization.Analyzer
