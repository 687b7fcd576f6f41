import Arithmetization.Proofs.Analysis.Outcome

/-! # Relaxed settings keep every analysis

A larger capacity admits longer formulas, and the permissive grammar admits formulas that are not
well formed. Neither changes what is found out about a formula that was admitted before. Relaxed
settings do analyze more formulas, and nothing is said about those.
-/

namespace Arithmetization.Analyzer

/-- What is read under some grammar is read alike under the same or the permissive grammar. -/
theorem read_relaxed {analyzer relaxed : Analyzer} {tokens : List Token} {length consumed : Nat}
    {root : Expression}
    (grammar : relaxed.settings.strict = false ∨
      relaxed.settings.strict = analyzer.settings.strict)
    (found : analyzer.read tokens length = .ok (root, consumed)) :
    relaxed.read tokens length = .ok (root, consumed) := by
  cases mode : relaxed.settings.strict with
  | false => exact (read_of_permissive mode).mpr (parse_of_read found)
  | true =>
    -- Strict settings relax only strict settings.
    have strict : analyzer.settings.strict = true := by
      rcases grammar with permissive | same
      · rw [mode] at permissive
        contradiction
      · rw [← same, mode]
    exact (read_of_strict mode).mpr ((read_of_strict strict).mp found)

/-- A formula that is analyzed under some settings has the same analysis under all settings with at
least their capacity and the same or the permissive grammar. -/
theorem run_relaxed (settings relaxed : Settings)
    (capacity : settings.primeCapacity ≤ relaxed.primeCapacity)
    (bound : relaxed.primeCapacity ≤ Encoder.maxCapacity)
    (grammar : relaxed.strict = false ∨ relaxed.strict = settings.strict) :
    ∃ analyzer generous, ofSettings settings = .ok analyzer ∧ ofSettings relaxed = .ok generous ∧
      ∀ formula analysis, analyzer.run formula = .ok analysis →
        generous.run formula = .ok analysis := by
  refine ⟨_, _, ofSettings_eq_ok (capacity.trans bound), ofSettings_eq_ok bound, ?_⟩
  intro formula analysis analyzed
  obtain ⟨fits, root, consumed, found, rfl⟩ := (run_first_eq_ok_iff settings).mp analyzed
  exact (run_first_eq_ok_iff relaxed).mpr
    ⟨fits.trans capacity, root, consumed, read_relaxed grammar found, rfl⟩

/-- A sentence that just fits, under a larger capacity and the permissive grammar. -/
theorem run_relaxed_sentence : 4 ≤ 9 ∧ 9 ≤ Encoder.maxCapacity ∧
    ∃ analyzer generous analysis, ofSettings ⟨4, true⟩ = .ok analyzer ∧
      ofSettings ⟨9, false⟩ = .ok generous ∧ analyzer.run "∀x x" = .ok analysis ∧
      generous.run "∀x x" = .ok analysis ∧ analysis.consumed = 3 := by
  obtain ⟨analyzer, generous, built, built', keeps⟩ :=
    run_relaxed ⟨4, true⟩ ⟨9, false⟩ (by decide) (by decide) (.inl rfl)
  obtain rfl := eq_of_ofSettings built
  have accepted : Strict.parse (Token.scan "∀x x") 4 =
      .ok (.quantified .universal (some (.letter .x)) (.atom (some (.letter .x)))) := rfl
  have analyzed := (run_first_eq_ok_iff ⟨4, true⟩).mpr
    ⟨by decide, _, 3, (read_of_strict rfl).mpr ⟨accepted, rfl⟩, rfl⟩
  exact ⟨by decide, by decide, _, generous, _, built, built', analyzed, keeps _ _ analyzed, rfl⟩

end Arithmetization.Analyzer
