import Arithmetization.Proofs.Analysis.Outcome
import Arithmetization.Proofs.Grammar.Recognition
import Arithmetization.Proofs.Scanning

/-! # Analysis is stable under decoding

The number of a formula does not tell the foreign characters apart and does not show those at the
end. The tokens do not either, so the formula that is decoded from the number has the tokens of the
original one, at the same places, and everything that is computed from them.
-/

namespace Arithmetization

/-- Whether a character is outside the alphabet. -/
def Symbol.isForeign (c : Char) : Bool := (ofChar? c).isNone

/-- What its number shows of a formula: the foreign characters become question marks, and those at
the end are lost. -/
def shownFormula (formula : String) : String :=
  String.ofList ((formula.toList.rdropWhile Symbol.isForeign).map
    fun c => if Symbol.isForeign c then '?' else c)

section

variable (formula : String)

/-- The formula of the symbols up to the last one. -/
theorem formulaOf_rdropWhile :
    Encoder.formulaOf ((formula.toList.map Symbol.ofChar?).rdropWhile Option.isNone) =
      shownFormula formula := by
  have dropped : (formula.toList.map Symbol.ofChar?).rdropWhile Option.isNone =
      (formula.toList.rdropWhile Symbol.isForeign).map Symbol.ofChar? :=
    rdropWhile_map Symbol.ofChar? Option.isNone formula.toList
  rw [Encoder.formulaOf, shownFormula, dropped, List.map_map]
  congr 1
  apply List.map_congr_left
  intro c _
  cases found : Symbol.ofChar? c with
  | none => simp [Symbol.isForeign, found, Encoder.unknownChar]
  | some symbol =>
    have same := Symbol.ofChar?_eq_some_iff.mp found
    simp [Symbol.isForeign, same]

theorem scan_shownFormula : Token.scan (shownFormula formula) = Token.scan formula := by
  rw [← formulaOf_rdropWhile, Token.scan, Token.scanFrom_eq_ofPlaces,
    Encoder.map_ofChar?_formulaOf, Token.ofPlaces_rdropWhile, ← Token.scanFrom_eq_ofPlaces]
  rfl

end

namespace Analyzer

variable {analyzer : Analyzer} {formula : String} {analysis : Analysis}

/-- Where the tokens are read, the length of the text does not matter. -/
theorem read_length {tokens : List Token} {length : Nat} {parsed : Expression × Nat}
    (found : analyzer.read tokens length = .ok parsed) (other : Nat) :
    analyzer.read tokens other = .ok parsed := by
  obtain ⟨root, consumed⟩ := parsed
  cases mode : analyzer.settings.strict with
  | true =>
    obtain ⟨accepted, all⟩ := (read_of_strict mode).mp found
    have accepted' : Strict.parse tokens other = .ok root :=
      Strict.parse_eq_ok_iff.mpr (Strict.parse_eq_ok_iff.mp accepted)
    exact (read_of_strict mode).mpr ⟨accepted', all⟩
  | false => exact (read_of_permissive mode).mpr ((read_of_permissive mode).mp found)

/-- The formula that is decoded from the number of an analysis is analyzed in the same way. -/
theorem run_shownFormula (table : Encoder.DistinctPrimes analyzer.encoder.primes.toList)
    (analyzed : analyzer.run formula = .ok analysis) :
    analyzer.encoder.decodeFormula analysis.encoding.number = .ok (shownFormula formula) ∧
      ∃ encoding, encoding.number = analysis.encoding.number ∧
        analyzer.run (shownFormula formula) =
          .ok { analysis with formula := shownFormula formula, encoding } := by
  obtain ⟨encoding, root, consumed, encoded, parsed, rfl⟩ := run_eq_ok_iff.mp analyzed
  have decoded : analyzer.encoder.decodeFormula encoding.number = .ok (shownFormula formula) :=
    Encoder.decodeFormula_eq_ok_iff.mpr
      ⟨_, Encoder.decode_encode table encoded, formulaOf_rdropWhile formula⟩
  obtain ⟨_, _, encoding', encoded', number⟩ := Encoder.encode_decodeFormula table decoded
  refine ⟨decoded, encoding', number, run_eq_ok_iff.mpr ⟨encoding', root, consumed, encoded', ?_, ?_⟩⟩
  · rw [scan_shownFormula]
    exact read_length parsed _
  · rw [scan_shownFormula]

/-- Under all settings of an admissible capacity, the number of an analyzed formula is decoded, and
the decoded formula has the tokens, the expression, the steps and the number of the original one. -/
theorem run_stable (settings : Settings)
    (bound : settings.primeCapacity ≤ Encoder.maxCapacity) :
    ∃ analyzer, ofSettings settings = .ok analyzer ∧
      ∀ formula analysis, analyzer.run formula = .ok analysis →
        analyzer.encoder.decodeFormula analysis.encoding.number = .ok (shownFormula formula) ∧
          ∃ again, analyzer.run (shownFormula formula) = .ok again ∧
            again.symbols = analysis.symbols ∧ again.consumed = analysis.consumed ∧
              again.root = analysis.root ∧ again.steps = analysis.steps ∧
                again.encoding.number = analysis.encoding.number := by
  refine ⟨_, ofSettings_eq_ok bound, ?_⟩
  intro formula analysis analyzed
  have table := Encoder.distinctPrimes_first settings.primeCapacity
  obtain ⟨decoded, encoding, number, again⟩ := run_shownFormula table analyzed
  exact ⟨decoded, _, again, rfl, rfl, rfl, rfl, number⟩

/-- A foreign character inside a sentence becomes a question mark, one at the end is lost, and the
strict grammar reads the same equation. -/
theorem run_stable_equation : 5 ≤ Encoder.maxCapacity ∧
    ∃ analyzer analysis again, ofSettings ⟨5, true⟩ = .ok analyzer ∧
      analyzer.run "x#=y#" = .ok analysis ∧
      analyzer.encoder.decodeFormula analysis.encoding.number = .ok "x?=y" ∧
      analyzer.run "x?=y" = .ok again ∧ again.root = analysis.root ∧
      again.encoding.number = analysis.encoding.number := by
  obtain ⟨analyzer, built, stable⟩ := run_stable ⟨5, true⟩ (by decide)
  obtain rfl := Except.ok.inj ((ofSettings_eq_ok (by decide)).symm.trans built)
  have encoded : ∃ encoding, Encoder.encode ⟨.first 5⟩ "x#=y#" = .ok encoding := by
    refine ⟨_, Encoder.encode_eq_ok_iff.mpr ⟨?_, rfl⟩⟩
    rw [Encoder.capacity_first]
    decide
  have accepted : Strict.parse (Token.scan "x#=y#") 5 =
      .ok (.binary .equality (.atom (some (.letter .x))) (.atom (some (.letter .y)))) := by
    decide
  have parsed : read ⟨⟨5, true⟩, ⟨.first 5⟩⟩ (Token.scan "x#=y#") "x#=y#".length =
      .ok (.binary .equality (.atom (some (.letter .x))) (.atom (some (.letter .y))), 3) :=
    congrArg (Except.map (·, 3)) accepted
  obtain ⟨encoding, encoded⟩ := encoded
  have analyzed := run_eq_ok_iff.mpr ⟨encoding, _, 3, encoded, parsed, rfl⟩
  obtain ⟨decoded, again, reanalyzed, _, _, root, _, number⟩ := stable _ _ analyzed
  exact ⟨by decide, _, _, again, built, analyzed, decoded, reanalyzed, root, number⟩

end Analyzer

end Arithmetization
