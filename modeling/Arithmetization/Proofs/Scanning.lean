import Arithmetization.Token
import Mathlib.Data.List.DropRight

/-! # Places of tokens

A token covers the place of the character that it was read from. The characters that are skipped
leave gaps between the tokens but do not move them. So the tokens of a text depend only on which
symbol each character is, and not on the characters that are skipped after the last symbol.
-/

namespace Arithmetization

theorem rdropWhile_map {α β : Type} (f : α → β) (p : β → Bool) (l : List α) :
    (l.map f).rdropWhile p = (l.rdropWhile (p ∘ f)).map f := by
  rw [List.rdropWhile, ← List.map_reverse, List.dropWhile_map, ← List.map_reverse]
  rfl

/-- What does not show an empty place at the end of a list does not show any number of them. -/
theorem eq_of_rdropWhile {α β : Type} (view : List (Option α) → β)
    (concat : ∀ places, view (places ++ [none]) = view places) (places : List (Option α)) :
    view (places.rdropWhile Option.isNone) = view places := by
  induction places using List.reverseRecOn with
  | nil => rfl
  | append_singleton places place ih =>
    cases place with
    | none => rw [List.rdropWhile_concat_pos _ _ _ rfl, ih, concat]
    | some symbol => rw [List.rdropWhile_concat_neg _ _ _ (by simp)]

theorem symbolsOf_append (first last : String) :
    symbolsOf (first ++ last) = symbolsOf first ++ symbolsOf last := by
  rw [symbolsOf, String.toList_append, List.filterMap_append, symbolsOf, symbolsOf]

namespace Token

theorem ofChar?_eq_some_iff {c : Char} {position : Nat} {token : Token} :
    ofChar? c position = some token ↔
      c = token.symbol.char ∧ token.start = position ∧ token.stop = position + 1 := by
  obtain ⟨symbol, start, stop⟩ := token
  simp only [ofChar?, Option.map_eq_some_iff, Symbol.ofChar?_eq_some_iff, Token.mk.injEq]
  constructor
  · rintro ⟨found, written, rfl, rfl, rfl⟩
    exact ⟨written, rfl, rfl⟩
  · rintro ⟨written, rfl, rfl⟩
    exact ⟨symbol, written, rfl, rfl, rfl⟩

/-- A token of a formula stands where the formula has the character of its symbol. -/
theorem mem_scan_iff {formula : String} {token : Token} :
    token ∈ scan formula ↔
      formula.toList[token.start]? = some token.symbol.char ∧ token.stop = token.start + 1 := by
  simp only [scan, scanFrom, List.mem_filterMap, Prod.exists, List.mem_zipIdx_iff_getElem?,
    ofChar?_eq_some_iff]
  constructor
  · rintro ⟨c, position, found, rfl, rfl, stop⟩
    exact ⟨found, stop⟩
  · rintro ⟨found, stop⟩
    exact ⟨_, _, found, rfl, rfl, stop⟩

theorem map_symbol_scan (formula : String) :
    (scan formula).map symbol = symbolsOf formula := map_symbol_scanFrom 0 formula.toList

theorem length_scan_le (formula : String) : (scan formula).length ≤ formula.length := by
  calc
    (scan formula).length ≤ (formula.toList.zipIdx 0).length := List.length_filterMap_le _ _
    _ = formula.length := by rw [List.length_zipIdx, String.length_toList]

/-- The tokens of a list of symbols that starts at a position, with nothing at the places that are
skipped. -/
def ofPlaces (position : Nat) (places : List (Option Symbol)) : List Token :=
  (places.zipIdx position).filterMap fun (place, i) => place.map (⟨·, i, i + 1⟩)

theorem scanFrom_eq_ofPlaces (position : Nat) (text : List Char) :
    scanFrom position text = ofPlaces position (text.map Symbol.ofChar?) := by
  rw [scanFrom, ofPlaces, List.zipIdx_map, List.filterMap_map]
  rfl

/-- Empty places at the end of a list do not show in its tokens. -/
theorem ofPlaces_rdropWhile (position : Nat) (places : List (Option Symbol)) :
    ofPlaces position (places.rdropWhile Option.isNone) = ofPlaces position places := by
  apply eq_of_rdropWhile
  intro places
  rw [ofPlaces, List.zipIdx_append, List.filterMap_append]
  exact List.append_nil _

end Token

end Arithmetization
