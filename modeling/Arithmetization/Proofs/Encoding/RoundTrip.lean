import Arithmetization.Proofs.Encoding.Factorization
import Arithmetization.Proofs.Primes.Table

/-! # Decoding inverts encoding

An encoder of capacity `c` encodes the formulas of at most `c` characters, over the first `c`
primes. Decoding the number of a formula gives the symbols of its characters without the foreign
characters at its end, and every decoded formula is encoded by the number that it was decoded from.
-/

namespace Arithmetization.Encoder

/-- The table of an encoder, which lists the first primes. -/
theorem distinctPrimes_first (capacity : Nat) :
    DistinctPrimes (PrimeTable.first capacity).toList where
  prime _ member := PrimeTable.prime_of_mem_entries (PrimeTable.toList_first capacity) member
  distinct := (PrimeTable.increasing_of_entries (PrimeTable.toList_first capacity)).imp Nat.ne_of_lt

section

variable {encoder : Encoder} {formula : String} {number : Nat}

theorem encode_eq_ok_iff {encoding : Encoding} :
    encoder.encode formula = .ok encoding ↔ formula.length ≤ encoder.capacity ∧
      Encoding.ofItems (List.zipWith Item.ofChar formula.toList encoder.primes.toList) =
        encoding := by
  rw [encode]
  by_cases long : formula.length > encoder.capacity
  · simp [if_pos long, Nat.not_le.mpr long]
  · simp [if_neg long, Nat.not_lt.mp long]

variable (table : DistinctPrimes encoder.primes.toList)

include table

/-- Decoding finds exactly the lists of which a number is the number. -/
theorem decode_eq_ok_iff {places : List (Option Symbol)} :
    encoder.decode number = .ok places ↔ places.length ≤ encoder.capacity ∧ Trimmed places ∧
      numberOf encoder.primes.toList places = number := by
  rw [capacity, PrimeTable.size_eq_length]
  rcases eq_or_ne number 0 with rfl | positive
  · simp [decode, (numberOf_pos table places).ne']
  · have read : readExponents encoder.capacity 0 number encoder.primes.toList = .ok places ↔ _ :=
      readExponents_eq_ok_iff table positive
    rw [decode, if_neg positive, ← read]
    cases readExponents encoder.capacity 0 number encoder.primes.toList <;>
      simp [Except.mapError]

/-- A formula that fits into the table is decoded from its number without the foreign characters at
its end. -/
theorem decode_encode {encoding : Encoding} (encoded : encoder.encode formula = .ok encoding) :
    encoder.decode encoding.number =
      .ok ((formula.toList.map Symbol.ofChar?).rdropWhile Option.isNone) := by
  obtain ⟨fits, rfl⟩ := encode_eq_ok_iff.mp encoded
  apply (decode_eq_ok_iff table).mpr
  refine ⟨?_, trimmed_rdropWhile _, ?_⟩
  · have shorter :=
      (List.rdropWhile_prefix Option.isNone (formula.toList.map Symbol.ofChar?)).length_le
    rw [List.length_map, String.length_toList] at shorter
    exact shorter.trans fits
  · rw [numberOf_rdropWhile, number_ofItems]

end

/-! ## Formulas of lists of places -/

theorem ofChar?_unknownChar : Symbol.ofChar? unknownChar = none := by decide

/-- Writing a list of places as a formula and reading the characters gives the list back. -/
theorem map_ofChar?_formulaOf (places : List (Option Symbol)) :
    (formulaOf places).toList.map Symbol.ofChar? = places := by
  rw [formulaOf, String.toList_ofList, List.map_map]
  conv_rhs => rw [← List.map_id places]
  apply List.map_congr_left
  intro place _
  cases place with
  | none => exact ofChar?_unknownChar
  | some symbol => exact Symbol.ofChar?_char symbol

theorem length_formulaOf (places : List (Option Symbol)) :
    (formulaOf places).length = places.length := by
  rw [formulaOf, String.length_ofList, List.length_map]

/-- A formula ends in the unknown character only where its list ends in an empty place. -/
theorem trimmed_of_formulaOf {places : List (Option Symbol)}
    (unknown : (formulaOf places).toList.getLast? = some unknownChar) : ¬ Trimmed places := by
  intro trimmed
  apply trimmed
  rw [← map_ofChar?_formulaOf places, List.getLast?_map, unknown, Option.map_some,
    ofChar?_unknownChar]

theorem decodeFormula_eq_ok_iff {encoder : Encoder} {formula : String} {number : Nat} :
    encoder.decodeFormula number = .ok formula ↔
      ∃ places, encoder.decode number = .ok places ∧ formulaOf places = formula := by
  rw [decodeFormula]
  cases encoder.decode number <;> simp [Except.map]

/-- A decoded formula fits into the table, does not end in the unknown character and is encoded by
the number that it was decoded from. -/
theorem encode_decodeFormula {encoder : Encoder} (table : DistinctPrimes encoder.primes.toList)
    {formula : String} {number : Nat} (decoded : encoder.decodeFormula number = .ok formula) :
    formula.length ≤ encoder.capacity ∧ formula.toList.getLast? ≠ some unknownChar ∧
      ∃ encoding, encoder.encode formula = .ok encoding ∧ encoding.number = number := by
  obtain ⟨places, found, rfl⟩ := decodeFormula_eq_ok_iff.mp decoded
  obtain ⟨fits, trimmed, rfl⟩ := (decode_eq_ok_iff table).mp found
  rw [← length_formulaOf] at fits
  refine ⟨fits, fun unknown => trimmed_of_formulaOf unknown trimmed, _,
    encode_eq_ok_iff.mpr ⟨fits, rfl⟩, ?_⟩
  rw [number_ofItems, map_ofChar?_formulaOf]

/-! ## Encoders of a capacity -/

theorem ofCapacity_eq_ok {capacity : Nat} (bound : capacity ≤ maxCapacity) :
    ofCapacity capacity = .ok ⟨.first capacity⟩ := by
  rw [ofCapacity, if_neg (Nat.not_lt.mpr bound)]

theorem capacity_first (capacity : Nat) :
    Encoder.capacity ⟨.first capacity⟩ = capacity := by
  rw [Encoder.capacity, PrimeTable.size_eq_length, PrimeTable.length_first]

/-- Within every admissible capacity, decoding inverts encoding up to foreign characters at the end,
and encoding inverts decoding. -/
theorem encoding_decoding_inverse (capacity : Nat) (bound : capacity ≤ maxCapacity) :
    ∃ encoder, ofCapacity capacity = .ok encoder ∧
      (∀ formula : String, formula.length ≤ capacity →
        ∃ encoding, encoder.encode formula = .ok encoding ∧
          encoder.decode encoding.number =
            .ok ((formula.toList.map Symbol.ofChar?).rdropWhile Option.isNone)) ∧
      ∀ number formula, encoder.decodeFormula number = .ok formula →
        formula.length ≤ capacity ∧ formula.toList.getLast? ≠ some '?' ∧
          ∃ encoding, encoder.encode formula = .ok encoding ∧ encoding.number = number := by
  have table := distinctPrimes_first capacity
  refine ⟨⟨.first capacity⟩, ofCapacity_eq_ok bound, ?_, ?_⟩
  · intro formula fits
    rw [← capacity_first capacity] at fits
    have encoded := encode_eq_ok_iff.mpr ⟨fits, rfl⟩
    exact ⟨_, encoded, decode_encode table encoded⟩
  · intro number formula decoded
    obtain ⟨fits, known, encoding⟩ := encode_decodeFormula table decoded
    rw [capacity_first] at fits
    exact ⟨fits, known, encoding⟩

/-- A foreign character between symbols is decoded as an empty place, one at the end is lost. -/
theorem encoding_decoding_inverse_gap : 5 ≤ maxCapacity ∧ "x#y#".length ≤ 5 ∧
    ∃ encoder encoding, ofCapacity 5 = .ok encoder ∧ encoder.encode "x#y#" = .ok encoding ∧
      encoder.decode encoding.number = .ok [some (.letter .x), none, some (.letter .y)] ∧
      encoder.decodeFormula encoding.number = .ok "x?y" ∧
      ∃ again, encoder.encode "x?y" = .ok again ∧ again.number = encoding.number := by
  obtain ⟨encoder, built, inverse, converse⟩ := encoding_decoding_inverse 5 (by decide)
  obtain ⟨encoding, encoded, decoded⟩ := inverse "x#y#" (by decide)
  have formula : encoder.decodeFormula encoding.number = .ok "x?y" := by
    rw [decodeFormula, decoded]
    rfl
  obtain ⟨_, _, again⟩ := converse encoding.number "x?y" formula
  exact ⟨by decide, by decide, encoder, encoding, built, encoded, decoded, formula, again⟩

end Arithmetization.Encoder
