import Arithmetization.Proofs.Encoding.Capacity
import Mathlib.Algebra.BigOperators.Group.List.Basic

/-! # Tokens and items line up

A formula is scanned for tokens and encoded into items independently. Both go through all
characters, so the tokens stand at the places of the items with a code, and their symbols have these
codes. The number is therefore a product over the tokens alone.
-/

namespace Arithmetization

open Encoder

theorem Symbol.codeOfChar_eq_code_iff {c : Char} {symbol : Symbol} :
    codeOfChar c = symbol.code ↔ c = symbol.char := by
  rw [← ofChar?_eq_some_iff]
  constructor
  · intro same
    rw [← ofCode?_codeOf (ofChar? c), ← ofCode?_code, ← same]
    rfl
  · intro found
    rw [codeOfChar, found]
    rfl

/-- The tokens are in the order of their positions. -/
theorem Token.pairwise_start_scan (formula : String) :
    (scan formula).Pairwise fun first second => first.start < second.start := by
  have places : (formula.toList.zipIdx 0).Pairwise fun first second => first.2 < second.2 := by
    apply List.pairwise_map.mp
    rw [List.zipIdx_map_snd]
    exact List.pairwise_lt_range'
  rw [scan, scanFrom, List.pairwise_filterMap]
  apply places.imp
  intro first second before token found token' found'
  rw [(ofChar?_eq_some_iff.mp found).2.1, (ofChar?_eq_some_iff.mp found').2.1]
  exact before

theorem getElem?_itemsFrom_eq_some_iff {place i : Nat} {text : List Char} {item : Item} :
    (itemsFrom place text)[i]? = some item ↔
      ∃ c, text[i]? = some c ∧ item = Item.ofChar c (Nat.nth Nat.Prime (place + i)) := by
  rw [itemsFrom, List.getElem?_map, List.getElem?_zipIdx]
  cases text[i]? <;> simp [eq_comm]

/-- The tokens are the items with a code, and their symbols have these codes. -/
theorem Token.mem_scan_iff_item {formula : String} {token : Token} :
    token ∈ scan formula ↔ ∃ i item, (encodingOf formula).items[i]? = some item ∧
      item.code ≠ 0 ∧ token.symbol.code = item.code ∧ token.start = i ∧ token.stop = i + 1 := by
  have items : (encodingOf formula).items = itemsFrom 0 formula.toList := rfl
  rw [mem_scan_iff, items]
  constructor
  · rintro ⟨found, stop⟩
    have code : token.symbol.code = Symbol.codeOfChar token.symbol.char :=
      (Symbol.codeOfChar_eq_code_iff.mpr rfl).symm
    have positive := (Symbol.code_bounds token.symbol).1
    refine ⟨token.start, _, getElem?_itemsFrom_eq_some_iff.mpr ⟨_, found, rfl⟩, ?_, code, rfl, stop⟩
    change Symbol.codeOfChar token.symbol.char ≠ 0
    omega
  · rintro ⟨i, item, found, _, code, rfl, stop⟩
    obtain ⟨c, at', rfl⟩ := getElem?_itemsFrom_eq_some_iff.mp found
    rw [Symbol.codeOfChar_eq_code_iff.mp code.symm] at at'
    exact ⟨at', stop⟩

/-- The factors of a text are those of its tokens, since all others are one. -/
theorem prod_factor_itemsFrom (place : Nat) (text : List Char) :
    ((itemsFrom place text).map Item.factor).prod =
      ((Token.scanFrom place text).map
        fun token => Nat.nth Nat.Prime token.start ^ token.symbol.code).prod := by
  induction text generalizing place with
  | nil => rfl
  | cons c text ih =>
    have items : itemsFrom place (c :: text) =
        Item.ofChar c (Nat.nth Nat.Prime place) :: itemsFrom (place + 1) text := rfl
    have first : (Item.ofChar c (Nat.nth Nat.Prime place)).factor =
        ((Token.ofChar? c place).toList.map
          fun token => Nat.nth Nat.Prime token.start ^ token.symbol.code).prod := by
      rw [Item.ofChar, Symbol.codeOfChar, Token.ofChar?]
      cases Symbol.ofChar? c <;> simp
    rw [items, List.map_cons, List.prod_cons, ih, Token.scanFrom_cons, List.map_append,
      List.prod_append, first]

theorem number_encodingOf (formula : String) :
    (encodingOf formula).number =
      ((Token.scan formula).map
        fun token => Nat.nth Nat.Prime token.start ^ token.symbol.code).prod := by
  rw [Token.scan, ← prod_factor_itemsFrom, List.prod_eq_foldr, List.foldr_map]
  rfl

namespace Encoder

/-- Within every admissible capacity, exactly the formulas that are too long are refused. The others
have an item for each character, their tokens are the items with a code, and their number is the
product over the tokens of the primes at their positions raised to the codes of their symbols. -/
theorem encode_aligned (capacity : Nat) (bound : capacity ≤ maxCapacity) :
    ∃ encoder, ofCapacity capacity = .ok encoder ∧ ∀ formula : String,
      (capacity < formula.length →
        encoder.encode formula = .error (.primesExhausted formula.length capacity)) ∧
      (formula.length ≤ capacity → ∃ encoding, encoder.encode formula = .ok encoding ∧
        encoding.items.map Item.char = formula.toList ∧
        ((Token.scan formula).Pairwise fun first second => first.start < second.start) ∧
        (∀ token, token ∈ Token.scan formula ↔ ∃ i item, encoding.items[i]? = some item ∧
          item.code ≠ 0 ∧ token.symbol.code = item.code ∧
            token.start = i ∧ token.stop = i + 1) ∧
        encoding.number = ((Token.scan formula).map
          fun token => Nat.nth Nat.Prime token.start ^ token.symbol.code).prod) := by
  refine ⟨_, ofCapacity_eq_ok bound, fun formula => ⟨encode_first_of_lt, fun fits => ?_⟩⟩
  refine ⟨encodingOf formula, encode_first_eq_ok_iff.mpr ⟨fits, rfl⟩, ?_, ?_, ?_, ?_⟩
  · exact map_char_itemsFrom 0 formula.toList
  · exact Token.pairwise_start_scan formula
  · intro token
    exact Token.mem_scan_iff_item
  · exact number_encodingOf formula

/-- Characters outside the alphabet leave gaps between the tokens; the primes are those of the
positions. -/
theorem encode_aligned_gap : 3 ≤ maxCapacity ∧ "é=x".length ≤ 3 ∧ 3 < "éx=y".length ∧
    ∃ encoder encoding, ofCapacity 3 = .ok encoder ∧ encoder.encode "é=x" = .ok encoding ∧
      Token.scan "é=x" = [⟨.operator .equality, 1, 2⟩, ⟨.letter .x, 2, 3⟩] ∧
      encoding.number = 3 ^ 8 * 5 ^ 15 ∧
      encoder.encode "éx=y" = .error (.primesExhausted 4 3) := by
  obtain ⟨encoder, built, aligned⟩ := encode_aligned 3 (by decide)
  obtain ⟨encoding, encoded, _, _, _, number⟩ := (aligned "é=x").2 (by decide)
  have tokens : Token.scan "é=x" = [⟨.operator .equality, 1, 2⟩, ⟨.letter .x, 2, 3⟩] := by decide
  refine ⟨by decide, by decide, by decide, encoder, encoding, built, encoded, tokens, ?_,
    (aligned "éx=y").1 (by decide)⟩
  rw [number, tokens]
  simp [Symbol.code]

end Encoder

end Arithmetization
