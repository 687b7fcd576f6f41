import Arithmetization.Proofs.Encoding.RoundTrip

/-! # The encoding of a formula does not depend on the capacity

Every table lists the first primes, so the prime that stands for a place is the same in all tables
that reach the place. The capacity only decides whether a formula is encoded: one that fits has the
same items and the same number under every capacity.
-/

namespace Arithmetization

open Encoder

/-- The contributions of the characters of a text whose first character has the given place. -/
noncomputable def itemsFrom (place : Nat) (text : List Char) : List Item :=
  (text.zipIdx place).map fun (c, i) => Item.ofChar c (Nat.nth Nat.Prime i)

/-- The encoding of a formula over the sequence of all primes. -/
noncomputable def encodingOf (formula : String) : Encoding := .ofItems (itemsFrom 0 formula.toList)

/-- A table that is long enough gives the characters of a text the primes of their places. -/
theorem zipWith_ofChar {text : List Char} {count : Nat} (place : Nat)
    (fits : text.length ≤ count) :
    List.zipWith Item.ofChar text ((List.range' place count).map (Nat.nth Nat.Prime)) =
      itemsFrom place text := by
  induction text generalizing place count with
  | nil => rfl
  | cons c text ih =>
    cases count with
    | zero => contradiction
    | succ count =>
      rw [List.range'_succ, List.map_cons, List.zipWith_cons_cons,
        ih (place + 1) (Nat.le_of_succ_le_succ fits)]
      rfl

theorem length_itemsFrom (place : Nat) (text : List Char) :
    (itemsFrom place text).length = text.length := by
  rw [itemsFrom, List.length_map, List.length_zipIdx]

theorem map_char_itemsFrom (place : Nat) (text : List Char) :
    (itemsFrom place text).map Item.char = text := by
  rw [itemsFrom, List.map_map]
  exact List.zipIdx_map_fst place text

namespace Encoder

variable {capacity : Nat} {formula : String} {encoding : Encoding}

/-- An encoder of a capacity has the table of that many primes. -/
theorem eq_of_ofCapacity {encoder : Encoder} (built : ofCapacity capacity = .ok encoder) :
    encoder = ⟨.first capacity⟩ := by
  rw [ofCapacity] at built
  split at built
  · contradiction
  · exact (Except.ok.inj built).symm

/-- A formula that fits is encoded over the sequence of all primes. -/
theorem encode_first_eq_ok_iff :
    encode ⟨.first capacity⟩ formula = .ok encoding ↔
      formula.length ≤ capacity ∧ encodingOf formula = encoding := by
  rw [encode_eq_ok_iff, capacity_first, PrimeTable.toList_first, List.range_eq_range']
  apply and_congr_right
  intro fits
  rw [zipWith_ofChar 0 fits, encodingOf]

/-- A formula that does not fit is refused with its length and the capacity. -/
theorem encode_first_of_lt (long : capacity < formula.length) :
    encode ⟨.first capacity⟩ formula = .error (.primesExhausted formula.length capacity) := by
  rw [encode, capacity_first, if_pos long]

/-- A larger capacity changes nothing for the formulas that fit already. -/
theorem encode_first_of_le {larger : Nat} (le : capacity ≤ larger)
    (encoded : encode ⟨.first capacity⟩ formula = .ok encoding) :
    encode ⟨.first larger⟩ formula = .ok encoding := by
  obtain ⟨fits, rfl⟩ := encode_first_eq_ok_iff.mp encoded
  exact encode_first_eq_ok_iff.mpr ⟨fits.trans le, rfl⟩

end Encoder

end Arithmetization
