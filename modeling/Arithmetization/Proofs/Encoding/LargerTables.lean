import Arithmetization.Proofs.Encoding.Capacity
import Arithmetization.Proofs.Encoding.Classification

/-! # Decoding with a larger table

A table is a beginning of every larger one. The number of a list of places does not depend on primes
past the places, so a smaller table decodes exactly those numbers of a larger one whose lists fit
into it. Of the refusals only one can be lifted by more primes: zero stays zero, and an exponent
past the largest code is found before any factor past the table is looked for.
-/

namespace Arithmetization

/-- A smaller table is the beginning of a larger one. -/
theorem PrimeTable.toList_first_eq_take {count larger : Nat} (le : count ≤ larger) :
    (first count).toList = (first larger).toList.take count := by
  rw [toList_first, toList_first, ← List.map_take, List.take_range, Nat.min_eq_left le]

/-- Whether a fault remains however many primes there are. -/
def DecodingFault.persists : DecodingFault → Bool
  | zero => true
  | exponentTooLarge _ _ => true
  | factorsBeyondTable _ => false

namespace Encoder

variable {capacity larger n : Nat} {places : List (Option Symbol)}

/-- Primes past the places of a list add nothing to its number. -/
theorem numberOf_take {count : Nat} (primes : List Nat) (fits : places.length ≤ count) :
    numberOf (primes.take count) places = numberOf primes places := by
  induction primes generalizing count places with
  | nil => rw [List.take_nil]
  | cons prime primes ih =>
    cases places with
    | nil => rw [numberOf_nil, numberOf_nil]
    | cons place places =>
      cases count with
      | zero => contradiction
      | succ count =>
        rw [List.take_succ_cons, numberOf_cons, numberOf_cons, ih (Nat.le_of_succ_le_succ fits)]

/-- A smaller table decodes the numbers of the lists that fit into it, and to the same lists. -/
theorem decode_first_eq_ok_iff_of_le (le : capacity ≤ larger) :
    decode ⟨.first capacity⟩ n = .ok places ↔
      decode ⟨.first larger⟩ n = .ok places ∧ places.length ≤ capacity := by
  rw [decode_eq_ok_iff (distinctPrimes_first capacity),
    decode_eq_ok_iff (distinctPrimes_first larger), capacity_first, capacity_first,
    PrimeTable.toList_first_eq_take le]
  constructor
  · rintro ⟨fits, trimmed, number⟩
    rw [numberOf_take _ fits] at number
    exact ⟨⟨fits.trans le, trimmed, number⟩, fits⟩
  · rintro ⟨⟨_, trimmed, number⟩, fits⟩
    rw [← numberOf_take _ fits] at number
    exact ⟨fits, trimmed, number⟩

/-- A fault that persists is found by every larger table. -/
theorem decode_first_of_persists {number : Nat} {fault : DecodingFault} (le : capacity ≤ larger)
    (persists : fault.persists = true)
    (refused : decode ⟨.first capacity⟩ n = .error (.notAnEncoding number fault)) :
    decode ⟨.first larger⟩ n = .error (.notAnEncoding number fault) := by
  apply decode_first_eq_iff.mpr
  cases decode_first_eq_iff.mp refused with
  | zero => exact .zero
  | large positive inside large first =>
    exact .large positive (inside.trans_le le) large first
  | beyond positive small more => contradiction

/-- Of the same number, a larger table makes the same list or finds the same fault. Only factors
past the smaller table may be found to be in the larger one, and then the list is too long for the
smaller one. -/
theorem decode_in_larger_table (capacity larger : Nat) (le : capacity ≤ larger)
    (bound : larger ≤ maxCapacity) :
    (PrimeTable.first capacity).toList = (PrimeTable.first larger).toList.take capacity ∧
    ∃ encoder encoder', ofCapacity capacity = .ok encoder ∧ ofCapacity larger = .ok encoder' ∧
      ∀ n,
        (∀ places, encoder.decode n = .ok places → encoder'.decode n = .ok places) ∧
        (∀ number fault, fault.persists = true →
          encoder.decode n = .error (.notAnEncoding number fault) →
          encoder'.decode n = .error (.notAnEncoding number fault)) ∧
        ∀ number available places,
          encoder.decode n = .error (.notAnEncoding number (.factorsBeyondTable available)) →
          encoder'.decode n = .ok places → capacity < places.length := by
  refine ⟨PrimeTable.toList_first_eq_take le, _, _, ofCapacity_eq_ok (le.trans bound),
    ofCapacity_eq_ok bound, fun n => ⟨?_, ?_, ?_⟩⟩
  · intro places decoded
    exact ((decode_first_eq_ok_iff_of_le le).mp decoded).1
  · intro number fault persists refused
    exact decode_first_of_persists le persists refused
  · intro number available places refused decoded
    by_contra fits
    have same := (decode_first_eq_ok_iff_of_le le).mpr ⟨decoded, Nat.not_lt.mp fits⟩
    rw [same] at refused
    contradiction

/-- The factor `5` is past a table of one prime and in a table of three. So `2 ^ 3 * 5` has a list
of three places in the larger table, while both tables refuse the exponent of `2` in `2 ^ 18 * 5`.
-/
theorem decode_in_larger_table_three :
    1 ≤ 3 ∧ 3 ≤ maxCapacity ∧ ∃ encoder encoder', ofCapacity 1 = .ok encoder ∧
      ofCapacity 3 = .ok encoder' ∧
      encoder.decode 8 = .ok [some .negation] ∧ encoder'.decode 8 = .ok [some .negation] ∧
      encoder.decode (2 ^ 3 * 5) = .error (.notAnEncoding (2 ^ 3 * 5) (.factorsBeyondTable 1)) ∧
      encoder'.decode (2 ^ 3 * 5) = .ok [some .negation, none, some (.quantifier .universal)] ∧
      1 < [some Symbol.negation, none, some (.quantifier .universal)].length ∧
      encoder'.decode (2 ^ 18 * 5) =
        .error (.notAnEncoding (2 ^ 18 * 5) (.exponentTooLarge 2 0)) := by
  obtain ⟨_, encoder, encoder', built, built', relation⟩ :=
    decode_in_larger_table 1 3 (by decide) (by decide)
  obtain rfl := eq_of_ofCapacity built
  obtain rfl := eq_of_ofCapacity built'
  have decoded : decode ⟨.first 1⟩ 8 = .ok [some .negation] := by decide +kernel
  have beyond : decode ⟨.first 1⟩ (2 ^ 3 * 5) =
      .error (.notAnEncoding (2 ^ 3 * 5) (.factorsBeyondTable 1)) := by decide +kernel
  have found : decode ⟨.first 3⟩ (2 ^ 3 * 5) =
      .ok [some .negation, none, some (.quantifier .universal)] := by decide +kernel
  have large : decode ⟨.first 1⟩ (2 ^ 18 * 5) =
      .error (.notAnEncoding (2 ^ 18 * 5) (.exponentTooLarge 2 0)) := by decide +kernel
  exact ⟨by decide, by decide, _, _, built, built', decoded, (relation 8).1 _ decoded, beyond,
    found, (relation _).2.2 _ _ _ beyond found, (relation _).2.1 _ _ rfl large⟩

end Encoder

end Arithmetization
