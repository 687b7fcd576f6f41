import Arithmetization.Proofs.Encoding.Capacity

/-! # Which formulas have the same number

A number shows the codes of a formula up to its last character of the alphabet. So two formulas
have the same number exactly if their codes agree up to zeros at the end, whatever the capacities
are that they are encoded under. Foreign characters are not told apart from each other.
-/

namespace Arithmetization

/-! ## Lists of codes up to zeros at their end -/

section

variable {codes : List Nat} {i code other : Nat}

/-- Zeros at the end of a list do not show in its entries if those past the end count as zero. -/
theorem getD_rdropWhile_zero (codes : List Nat) (i : Nat) :
    (codes.rdropWhile (· = 0)).getD i 0 = codes.getD i 0 := by
  induction codes using List.reverseRecOn with
  | nil => rfl
  | append_singleton codes code ih =>
    by_cases zero : code = 0
    · rw [List.rdropWhile_concat_pos _ _ _ (by simpa using zero), ih, zero]
      rcases Nat.lt_or_ge i codes.length with inside | outside
      · rw [List.getD_append _ _ _ _ inside]
      · rw [List.getD_append_right _ _ _ _ outside, List.getD_eq_default _ _ outside]
        cases i - codes.length <;> rfl
    · rw [List.rdropWhile_concat_neg _ _ _ (by simpa using zero)]

/-- A replaced entry shows if and only if it is another number. -/
theorem rdropWhile_set_eq_iff (found : codes[i]? = some code) :
    (codes.set i other).rdropWhile (· = 0) = codes.rdropWhile (· = 0) ↔ other = code := by
  obtain ⟨inside, rfl⟩ := List.getElem?_eq_some_iff.mp found
  constructor
  · intro same
    have entries := congrArg (·.getD i 0) same
    simp only [getD_rdropWhile_zero] at entries
    simpa [List.getD_eq_getElem?_getD, inside] using entries
  · rintro rfl
    rw [List.set_getElem_self]

end

/-- The codes of the characters of a formula. -/
def codesOf (formula : String) : List Nat := formula.toList.map Symbol.codeOfChar

theorem codesOf_eq_map_codeOf (formula : String) :
    codesOf formula = (formula.toList.map Symbol.ofChar?).map Symbol.codeOf := by
  rw [List.map_map]
  rfl

namespace Symbol

theorem codeOf_injective : Function.Injective codeOf :=
  Function.LeftInverse.injective ofCode?_codeOf

/-- The codes of a list of places without the zeros at its end. -/
theorem rdropWhile_map_codeOf (places : List (Option Symbol)) :
    (places.map codeOf).rdropWhile (· = 0) = (places.rdropWhile Option.isNone).map codeOf := by
  rw [rdropWhile_map]
  congr 2
  funext place
  rw [Bool.eq_iff_iff, Function.comp_apply, decide_eq_true_eq, codeOf_eq_zero_iff,
    Option.isNone_iff_eq_none]

end Symbol

namespace Encoder

variable {encoder : Encoder} {f g : String} {encoding encoding' : Encoding}

/-- Over one table, two formulas have the same number exactly if their codes agree up to zeros at
the end. -/
theorem number_eq_iff (table : DistinctPrimes encoder.primes.toList)
    (encoded : encoder.encode f = .ok encoding) (encoded' : encoder.encode g = .ok encoding') :
    encoding.number = encoding'.number ↔
      (codesOf f).rdropWhile (· = 0) = (codesOf g).rdropWhile (· = 0) := by
  rw [codesOf_eq_map_codeOf, codesOf_eq_map_codeOf, Symbol.rdropWhile_map_codeOf,
    Symbol.rdropWhile_map_codeOf, (List.map_injective_iff.mpr Symbol.codeOf_injective).eq_iff]
  constructor
  · intro same
    -- Decoding shows both formulas in what it finds out about their common number.
    have decoded := decode_encode table encoded
    rw [same, decode_encode table encoded'] at decoded
    exact (Except.ok.inj decoded).symm
  · intro same
    obtain ⟨_, rfl⟩ := encode_eq_ok_iff.mp encoded
    obtain ⟨_, rfl⟩ := encode_eq_ok_iff.mp encoded'
    rw [number_ofItems, number_ofItems, ← numberOf_rdropWhile, same, numberOf_rdropWhile]

/-- Formulas that are encoded under different capacities are both encoded under the larger one. -/
theorem number_first_eq_iff {capacity capacity' : Nat}
    (encoded : encode ⟨.first capacity⟩ f = .ok encoding)
    (encoded' : encode ⟨.first capacity'⟩ g = .ok encoding') :
    encoding.number = encoding'.number ↔
      (codesOf f).rdropWhile (· = 0) = (codesOf g).rdropWhile (· = 0) :=
  number_eq_iff (distinctPrimes_first (max capacity capacity'))
    (encode_first_of_le (Nat.le_max_left _ _) encoded)
    (encode_first_of_le (Nat.le_max_right _ _) encoded')

/-- A formula in which one character is replaced fits as well as the original one, and has another
number exactly if the character has another code. -/
theorem number_replaced_iff {capacity i : Nat} {c : Char} (d : Char)
    (encoded : encode ⟨.first capacity⟩ f = .ok encoding) (found : f.toList[i]? = some c) :
    ∃ encoding', encode ⟨.first capacity⟩ (String.ofList (f.toList.set i d)) = .ok encoding' ∧
      (encoding'.number ≠ encoding.number ↔ Symbol.codeOfChar d ≠ Symbol.codeOfChar c) := by
  have fits := (encode_first_eq_ok_iff.mp encoded).1
  have fits' : (String.ofList (f.toList.set i d)).length ≤ capacity := by
    rwa [String.length_ofList, List.length_set, String.length_toList]
  have encoded' := encode_first_eq_ok_iff.mpr ⟨fits', rfl⟩
  have codes : codesOf (String.ofList (f.toList.set i d)) =
      (codesOf f).set i (Symbol.codeOfChar d) := by
    rw [codesOf, String.toList_ofList, List.map_set, codesOf]
  have code : (codesOf f)[i]? = some (Symbol.codeOfChar c) := by
    rw [codesOf, List.getElem?_map, found]
    rfl
  refine ⟨_, encoded', not_congr ?_⟩
  rw [number_first_eq_iff encoded' encoded, codes, rdropWhile_set_eq_iff code]

/-- Under all admissible capacities, two encoded formulas have the same number exactly if their
codes agree up to zeros at the end. In particular, replacing one character of a formula changes its
number exactly if the new character has another code. -/
theorem same_number_iff_same_codes (capacity capacity' : Nat) (bound : capacity ≤ maxCapacity)
    (bound' : capacity' ≤ maxCapacity) :
    ∃ encoder encoder', ofCapacity capacity = .ok encoder ∧ ofCapacity capacity' = .ok encoder' ∧
      (∀ f g encoding encoding', encoder.encode f = .ok encoding →
        encoder'.encode g = .ok encoding' →
          (encoding.number = encoding'.number ↔
            (codesOf f).rdropWhile (· = 0) = (codesOf g).rdropWhile (· = 0))) ∧
      ∀ f encoding i c d, encoder.encode f = .ok encoding → f.toList[i]? = some c →
        ∃ encoding', encoder.encode (String.ofList (f.toList.set i d)) = .ok encoding' ∧
          (encoding'.number ≠ encoding.number ↔
            Symbol.codeOfChar d ≠ Symbol.codeOfChar c) := by
  refine ⟨_, _, ofCapacity_eq_ok bound, ofCapacity_eq_ok bound', ?_, ?_⟩
  · intro f g encoding encoding' encoded encoded'
    exact number_first_eq_iff encoded encoded'
  · intro f encoding i c d encoded found
    exact number_replaced_iff d encoded found

/-- Foreign characters are not told apart between symbols and do not show at the end; a symbol in
place of one does. -/
theorem same_number_iff_same_codes_foreign : 4 ≤ maxCapacity ∧ 3 ≤ maxCapacity ∧
    ∃ encoder encoder' encoding encoding' encoding'', ofCapacity 4 = .ok encoder ∧
      ofCapacity 3 = .ok encoder' ∧ encoder.encode "x#y?" = .ok encoding ∧
      encoder'.encode "x y" = .ok encoding' ∧ encoder.encode "x=y?" = .ok encoding'' ∧
      encoding.number = encoding'.number ∧ encoding''.number ≠ encoding.number := by
  obtain ⟨encoder, encoder', built, built', same, replaced⟩ :=
    same_number_iff_same_codes 4 3 (by decide) (by decide)
  obtain rfl := eq_of_ofCapacity built
  obtain rfl := eq_of_ofCapacity built'
  have encoded : encode ⟨.first 4⟩ "x#y?" = .ok (encodingOf "x#y?") :=
    encode_first_eq_ok_iff.mpr ⟨by decide, rfl⟩
  have encoded' : encode ⟨.first 3⟩ "x y" = .ok (encodingOf "x y") :=
    encode_first_eq_ok_iff.mpr ⟨by decide, rfl⟩
  obtain ⟨encoding'', encoded'', changed⟩ := replaced "x#y?" _ 1 '#' '=' encoded rfl
  exact ⟨by decide, by decide, _, _, _, _, encoding'', built, built', encoded, encoded', encoded'',
    (same _ _ _ _ encoded encoded').mpr (by decide), changed.mpr (by decide)⟩

end Encoder

end Arithmetization
