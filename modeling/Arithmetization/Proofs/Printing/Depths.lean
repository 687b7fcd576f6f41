import Arithmetization.Printing
import Mathlib.Data.UInt

/-! # Depths of printed parentheses

A grouping parenthesis carries the number of pairs around it, as far as a byte can hold it. The
pairs are found in the printed pieces alone, by closing the last parenthesis that is still open;
parentheses that are symbols of the expression play no part in them.

`Levelled` describes pieces by their nesting: whatever stands between a pair is one level further in.
Every rule of the printer keeps to it, and from it the pairs around a place are counted.
-/

namespace Arithmetization

namespace Piece

/-- The depth that a grouping parenthesis carries. -/
def depth? : Piece → Option UInt8
  | opening depth => some depth
  | closing depth => some depth
  | _ => none

/-- The places of the pairs of grouping parentheses in pieces that begin at a place. Of those that
are open, the last one is closed first. -/
def pairsFrom : (place : Nat) → (opened : List Nat) → List Piece → List (Nat × Nat)
  | _, _, [] => []
  | place, opened, opening _ :: rest => pairsFrom (place + 1) (place :: opened) rest
  | place, first :: opened, closing _ :: rest =>
    (first, place) :: pairsFrom (place + 1) opened rest
  | place, opened, _ :: rest => pairsFrom (place + 1) opened rest

/-- The places of the pairs of grouping parentheses. -/
def pairs (pieces : List Piece) : List (Nat × Nat) := pairsFrom 0 [] pieces

/-- Whether a place is between the places of a pair. -/
def encloses (place : Nat) (pair : Nat × Nat) : Bool := pair.1 < place && place < pair.2

/-- The number of pairs that enclose a place. -/
def enclosing (pieces : List Piece) (place : Nat) : Nat := (pairs pieces).countP (encloses place)

/-- The colors of parentheses by depth. -/
def palette : List Terminal.Color := [.blue, .green, .yellow]

theorem parenthesisColor_eq (depth : UInt8) :
    palette[depth.toNat % 3]? = some (parenthesisColor depth) := by
  have remainder : depth % 3 = .ofNat (depth.toNat % 3) := by
    have three : (3 : UInt8).toNat = 3 := rfl
    rw [← UInt8.toNat_inj, UInt8.toNat_mod, UInt8.toNat_ofNat', three]
    exact (Nat.mod_eq_of_lt (by omega)).symm
  have cases : depth.toNat % 3 = 0 ∨ depth.toNat % 3 = 1 ∨ depth.toNat % 3 = 2 := by omega
  rw [parenthesisColor, remainder]
  rcases cases with found | found | found <;> rw [found] <;> rfl

/-! ## Pieces by nesting level -/

/-- Pieces at a level: a pair carries the level as its depth, and what it encloses is one level
further in. -/
inductive Levelled : (level : Nat) → List Piece → Prop where
  | nil (level : Nat) : Levelled level []
  | cons {level : Nat} {piece : Piece} {rest : List Piece} (plain : piece.depth? = none)
      (later : Levelled level rest) : Levelled level (piece :: rest)
  | pair {level : Nat} {inner rest : List Piece} (within : Levelled (level + 1) inner)
      (later : Levelled level rest) :
      Levelled level
        (opening (.ofNat level) :: (inner ++ closing (.ofNat level) :: rest))

namespace Levelled

variable {level : Nat} {pieces inner rest : List Piece}

theorem append (levelled : Levelled level pieces) (later : Levelled level rest) :
    Levelled level (pieces ++ rest) := by
  induction levelled with
  | nil => exact later
  | cons plain _ ih => exact .cons plain (ih later)
  | pair within _ _ ih =>
    rw [List.cons_append, List.append_assoc, List.cons_append]
    exact .pair within (ih later)

theorem enclose (within : Levelled (level + 1) inner) :
    Levelled level (Piece.enclose (.ofNat level) inner) := .pair within (.nil level)

theorem optional (symbol : Option Symbol) : Levelled level (Piece.optional symbol) := by
  cases symbol with
  | none => exact .nil level
  | some s => exact .cons rfl (.nil level)

theorem grouped {pieces : UInt8 → Bool → List Piece}
    (levelled : ∀ level tail, Levelled level (pieces (.ofNat level) tail))
    (isBinary tail : Bool) : Levelled level (Piece.grouped isBinary (.ofNat level) tail pieces) := by
  cases isBinary with
  | false => exact levelled level tail
  | true =>
    have further : UInt8.ofNat level + 1 = .ofNat (level + 1) := by simp
    have within := levelled (level + 1) true
    rw [← further] at within
    exact within.enclose

end Levelled

end Piece

/-- The printer keeps to the levels, at every site where it writes parentheses. -/
theorem Expression.levelled_pieces (e : Expression) (level : Nat) (tail : Bool) :
    Piece.Levelled level (e.pieces (.ofNat level) tail) := by
  induction e generalizing level tail with
  | atom symbol => exact .optional symbol
  | successor operand ih => exact .cons rfl (.grouped ih operand.isBinary tail)
  | negation operand ih => exact .cons rfl (.grouped ih operand.isBinary tail)
  | binary op left right ihLeft ihRight =>
    exact (ihLeft level false).append
      (.cons rfl (.cons rfl (.cons rfl (.grouped ihRight right.isBinary tail))))
  | quantified q bound body ih =>
    have opened (level : Nat) :
        Piece.Levelled level ((quantified q bound body).pieces (.ofNat level) true) :=
      .cons rfl ((Piece.Levelled.optional bound).append
        (.cons rfl (.grouped ih body.isBinary true)))
    cases tail with
    | true => exact opened level
    | false =>
      have further : UInt8.ofNat level + 1 = .ofNat (level + 1) := by simp
      have within := opened (level + 1)
      rw [← further] at within
      exact within.enclose

namespace Piece

/-! ## The pairs of levelled pieces -/

variable {level : Nat} {pieces inner rest : List Piece}

theorem pairsFrom_cons {piece : Piece} (plain : piece.depth? = none) (place : Nat)
    (opened : List Nat) :
    pairsFrom place opened (piece :: rest) = pairsFrom (place + 1) opened rest := by
  cases piece with
  | symbol s => cases opened <;> rfl
  | space => cases opened <;> rfl
  | _ => contradiction

/-- Levelled pieces leave open what was open before them. -/
theorem pairsFrom_append (levelled : Levelled level pieces) (place : Nat) (opened : List Nat)
    (rest : List Piece) :
    pairsFrom place opened (pieces ++ rest) =
      pairsFrom place [] pieces ++ pairsFrom (place + pieces.length) opened rest := by
  induction levelled generalizing place opened rest with
  | nil => rfl
  | cons plain _ ih =>
    rw [List.cons_append, pairsFrom_cons plain, pairsFrom_cons plain, ih, List.length_cons,
      Nat.add_right_comm, Nat.add_assoc]
  | @pair _ inner later _ _ ihInner ihRest =>
    simp only [List.cons_append, List.append_assoc, pairsFrom, ihInner, ihRest, List.length_cons,
      List.length_append]
    have behind : place + (inner.length + (later.length + 1) + 1) =
        place + 1 + inner.length + 1 + later.length := by omega
    rw [behind]

/-- The pairs in a pair, the pair itself and the pairs after it. -/
theorem pairsFrom_pair (within : Levelled level inner) (place : Nat) (depth depth' : UInt8)
    (rest : List Piece) :
    pairsFrom place [] (opening depth :: (inner ++ closing depth' :: rest)) =
      pairsFrom (place + 1) [] inner ++ (place, place + inner.length + 1) ::
        pairsFrom (place + inner.length + 2) [] rest := by
  rw [pairsFrom, pairsFrom_append within, pairsFrom, Nat.add_right_comm]

theorem bounds_of_mem_pairsFrom (levelled : Levelled level pieces) {place : Nat}
    {pair : Nat × Nat} (member : pair ∈ pairsFrom place [] pieces) :
    place ≤ pair.1 ∧ pair.1 < pair.2 ∧ pair.2 < place + pieces.length := by
  induction levelled generalizing place with
  | nil => contradiction
  | cons plain _ ih =>
    rw [pairsFrom_cons plain] at member
    have := ih member
    rw [List.length_cons]
    omega
  | pair within _ ihInner ihRest =>
    rw [pairsFrom_pair within, List.mem_append, List.mem_cons] at member
    simp only [List.length_cons, List.length_append]
    rcases member with member | rfl | member
    · have := ihInner member
      omega
    · dsimp only
      omega
    · have := ihRest member
      omega

/-- Levelled pieces have no pair around a place outside. -/
theorem countP_outside (levelled : Levelled level pieces) {start place : Nat}
    (outside : place ≤ start ∨ start + pieces.length ≤ place + 1) :
    (pairsFrom start [] pieces).countP (encloses place) = 0 := by
  rw [List.countP_eq_zero]
  intro pair member
  have := bounds_of_mem_pairsFrom levelled member
  simp only [encloses, Bool.and_eq_true, decide_eq_true_eq]
  omega

/-! ## Places in pieces with a pair in front -/

theorem getElem?_inside {first last : Piece} {k : Nat} (inside : k < inner.length) :
    (first :: (inner ++ last :: rest))[k + 1]? = inner[k]? := by
  rw [List.getElem?_cons_succ, List.getElem?_append_left inside]

theorem getElem?_behind {first last : Piece} {k : Nat} :
    (first :: (inner ++ last :: rest))[k + inner.length + 2]? = rest[k]? := by
  have place : k + inner.length + 1 - inner.length = k + 1 := by omega
  rw [List.getElem?_cons_succ, List.getElem?_append_right (by omega), place,
    List.getElem?_cons_succ]

/-- A place is that of a member of the pair, in it or behind it. -/
theorem place_cases (inner : List Piece) (i : Nat) :
    i = 0 ∨ (∃ k < inner.length, i = k + 1) ∨ i = inner.length + 1 ∨
      ∃ k, i = k + inner.length + 2 := by
  rcases Nat.lt_trichotomy i (inner.length + 1) with before | same | behind
  · cases i with
    | zero => exact .inl rfl
    | succ k => exact .inr (.inl ⟨k, by omega, rfl⟩)
  · exact .inr (.inr (.inl same))
  · exact .inr (.inr (.inr ⟨i - (inner.length + 2), by omega⟩))

section

variable {depth depth' : UInt8} {i k : Nat}

/-- No pair is around a member of the pair in front. -/
theorem countP_member (within : Levelled (level + 1) inner) (later : Levelled level rest)
    (start : Nat) (own : i = 0 ∨ i = inner.length + 1) :
    (pairsFrom start [] (opening depth :: (inner ++ closing depth' :: rest))).countP
      (encloses (start + i)) = 0 := by
  have apart : encloses (start + i) (start, start + inner.length + 1) = false := by
    simp only [encloses, Bool.and_eq_false_iff, decide_eq_false_iff_not]
    omega
  rw [pairsFrom_pair within, List.countP_append, List.countP_cons, countP_outside within (by omega),
    countP_outside later (by omega), apart]
  rfl

/-- Around a place in the pair in front are that pair and the pairs in it. -/
theorem countP_inside (within : Levelled (level + 1) inner) (later : Levelled level rest)
    (start : Nat) (inside : k < inner.length) :
    (pairsFrom start [] (opening depth :: (inner ++ closing depth' :: rest))).countP
        (encloses (start + (k + 1))) =
      (pairsFrom (start + 1) [] inner).countP (encloses (start + 1 + k)) + 1 := by
  have around : encloses (start + (k + 1)) (start, start + inner.length + 1) = true := by
    simp only [encloses, Bool.and_eq_true, decide_eq_true_eq]
    omega
  have own : start + 1 + k = start + (k + 1) := by omega
  rw [pairsFrom_pair within, List.countP_append, List.countP_cons, countP_outside later (by omega),
    around, own]
  rfl

/-- Around a place behind the pair in front are only pairs behind it. -/
theorem countP_behind (within : Levelled (level + 1) inner) (start : Nat) :
    (pairsFrom start [] (opening depth :: (inner ++ closing depth' :: rest))).countP
        (encloses (start + (k + inner.length + 2))) =
      (pairsFrom (start + inner.length + 2) [] rest).countP
        (encloses (start + inner.length + 2 + k)) := by
  have before : encloses (start + (k + inner.length + 2)) (start, start + inner.length + 1) =
      false := by
    simp only [encloses, Bool.and_eq_false_iff, decide_eq_false_iff_not]
    omega
  have own : start + inner.length + 2 + k = start + (k + inner.length + 2) := by omega
  rw [pairsFrom_pair within, List.countP_append, List.countP_cons, countP_outside within (by omega),
    before, own, Nat.zero_add]
  rfl

end

/-- In levelled pieces a parenthesis carries its level and the number of pairs around it. -/
theorem depth_eq_of_levelled (levelled : Levelled level pieces) {i : Nat} {piece : Piece}
    {depth : UInt8} (found : pieces[i]? = some piece) (carries : piece.depth? = some depth)
    (start : Nat) :
    depth = .ofNat (level + (pairsFrom start [] pieces).countP (encloses (start + i))) := by
  induction levelled generalizing i start with
  | nil => contradiction
  | @cons level first rest plain _ ih =>
    cases i with
    | zero =>
      obtain rfl := Option.some.inj found
      rw [plain] at carries
      contradiction
    | succ i =>
      have place : start + (i + 1) = start + 1 + i := by omega
      rw [pairsFrom_cons plain, place]
      exact ih found (start + 1)
  | @pair level inner rest within later ihInner ihRest =>
    rcases place_cases inner i with rfl | ⟨k, inside, rfl⟩ | rfl | ⟨k, rfl⟩
    · obtain rfl := Option.some.inj found
      rw [countP_member within later start (.inl rfl)]
      exact (Option.some.inj carries).symm
    · rw [getElem?_inside inside] at found
      rw [countP_inside within later start inside, ihInner found (start + 1), Nat.add_assoc,
        Nat.add_comm 1]
    · have closes : piece = closing (.ofNat level) := by simpa using found.symm
      subst closes
      rw [countP_member within later start (.inr rfl)]
      exact (Option.some.inj carries).symm
    · rw [getElem?_behind] at found
      rw [countP_behind within start, ← ihRest found (start + inner.length + 2)]

/-- In levelled pieces every parenthesis belongs to a pair. -/
theorem exists_pair_of_levelled (levelled : Levelled level pieces) {i : Nat} {piece : Piece}
    {depth : UInt8} (found : pieces[i]? = some piece) (carries : piece.depth? = some depth)
    (start : Nat) :
    ∃ pair ∈ pairsFrom start [] pieces, pair.1 = start + i ∨ pair.2 = start + i := by
  induction levelled generalizing i start with
  | nil => contradiction
  | @cons level first rest plain _ ih =>
    cases i with
    | zero =>
      obtain rfl := Option.some.inj found
      rw [plain] at carries
      contradiction
    | succ i =>
      obtain ⟨pair, member, place⟩ := ih found (start + 1)
      rw [pairsFrom_cons plain]
      exact ⟨pair, member, by omega⟩
  | @pair level inner rest within _ ihInner ihRest =>
    rw [pairsFrom_pair within]
    rcases place_cases inner i with rfl | ⟨k, inside, rfl⟩ | rfl | ⟨k, rfl⟩
    · exact ⟨_, List.mem_append_right _ List.mem_cons_self, .inl rfl⟩
    · rw [getElem?_inside inside] at found
      obtain ⟨pair, member, place⟩ := ihInner found (start + 1)
      exact ⟨pair, List.mem_append_left _ member, by omega⟩
    · exact ⟨_, List.mem_append_right _ List.mem_cons_self, .inr rfl⟩
    · rw [getElem?_behind] at found
      obtain ⟨pair, member, place⟩ := ihRest found (start + inner.length + 2)
      exact ⟨pair, List.mem_append_right _ (List.mem_cons_of_mem _ member), by omega⟩

/-- The members of a pair of levelled pieces carry the same depth. -/
theorem exists_depth_of_mem_pairsFrom (levelled : Levelled level pieces) {start : Nat}
    {pair : Nat × Nat} (member : pair ∈ pairsFrom start [] pieces) :
    ∃ i j depth, pair = (start + i, start + j) ∧ pieces[i]? = some (opening depth) ∧
      pieces[j]? = some (closing depth) := by
  induction levelled generalizing start with
  | nil => contradiction
  | cons plain _ ih =>
    rw [pairsFrom_cons plain] at member
    obtain ⟨i, j, depth, rfl, first, last⟩ := ih member
    exact ⟨i + 1, j + 1, depth, by simp only [Prod.mk.injEq]; omega, first, last⟩
  | @pair level inner rest within _ ihInner ihRest =>
    rw [pairsFrom_pair within, List.mem_append, List.mem_cons] at member
    rcases member with member | rfl | member
    · obtain ⟨i, j, depth, rfl, first, last⟩ := ihInner member
      refine ⟨i + 1, j + 1, depth, by simp only [Prod.mk.injEq]; omega, ?_, ?_⟩
      · rwa [getElem?_inside (List.getElem?_eq_some_iff.mp first).1]
      · rwa [getElem?_inside (List.getElem?_eq_some_iff.mp last).1]
    · exact ⟨0, inner.length + 1, .ofNat level, rfl, rfl, by simp⟩
    · obtain ⟨i, j, depth, rfl, first, last⟩ := ihRest member
      refine ⟨i + inner.length + 2, j + inner.length + 2, depth,
        by simp only [Prod.mk.injEq]; omega, ?_, ?_⟩
      · rwa [getElem?_behind]
      · rwa [getElem?_behind]

end Piece

namespace Expression

/-- A printed grouping parenthesis has the style of the number of pairs that enclose it, as a byte,
and so the color at that place of the palette, which goes round. It belongs to a pair, and both
members of a pair carry the same depth. -/
theorem parentheses_styled_by_nesting (e : Expression) :
    (∀ place piece depth, e.layout[place]? = some piece → piece.depth? = some depth →
      depth.toNat = Piece.enclosing e.layout place % 256 ∧
      piece.style? = some (Piece.parenthesisStyle depth) ∧
      Piece.palette[Piece.enclosing e.layout place % 256 % 3]? =
        some (Piece.parenthesisStyle depth).color ∧
      ∃ pair ∈ Piece.pairs e.layout, pair.1 = place ∨ pair.2 = place) ∧
    ∀ pair ∈ Piece.pairs e.layout, ∃ depth,
      e.layout[pair.1]? = some (.opening depth) ∧ e.layout[pair.2]? = some (.closing depth) := by
  have levelled : Piece.Levelled 0 e.layout := e.levelled_pieces 0 true
  constructor
  · intro place piece depth found carries
    have depth_eq := Piece.depth_eq_of_levelled levelled found carries 0
    have paired := Piece.exists_pair_of_levelled levelled found carries 0
    rw [Nat.zero_add, Nat.zero_add] at depth_eq
    have value : depth.toNat = Piece.enclosing e.layout place % 256 := by
      rw [depth_eq, UInt8.toNat_ofNat']
      rfl
    have styled : piece.style? = some (Piece.parenthesisStyle depth) := by
      cases piece with
      | opening d | closing d => rw [← Option.some.inj carries]; rfl
      | _ => contradiction
    rw [Nat.zero_add] at paired
    refine ⟨value, styled, ?_, paired⟩
    rw [← value]
    exact Piece.parenthesisColor_eq depth
  · intro pair member
    obtain ⟨i, j, depth, rfl, first, last⟩ := Piece.exists_depth_of_mem_pairsFrom levelled member
    rw [Nat.zero_add, Nat.zero_add]
    exact ⟨depth, first, last⟩

/-- In `(∀x (S(y + z) = 0)) ∧ 0` two pairs enclose the parenthesis after `z`, and the parentheses of
the body match. -/
theorem parentheses_styled_by_nesting_inner :
    let sum : Expression :=
      .binary .addition (.atom (some (.letter .y))) (.atom (some (.letter .z)))
    let body : Expression := .binary .equality (.successor sum) (.atom (some .zero))
    let e : Expression := .binary .conjunction
      (.quantified .universal (some (.letter .x)) body) (.atom (some .zero))
    e.layout[12]? = some (.closing 2) ∧ Piece.enclosing e.layout 12 % 256 = 2 ∧
      (4, 17) ∈ Piece.pairs e.layout ∧
      ∃ depth, e.layout[4]? = some (.opening depth) ∧ e.layout[17]? = some (.closing depth) := by
  intro sum body e
  have found : e.layout[12]? = some (.closing 2) := rfl
  have member : (4, 17) ∈ Piece.pairs e.layout := by decide
  have depth := ((parentheses_styled_by_nesting e).1 12 (.closing 2) 2 found rfl).1
  exact ⟨found, depth.symm, member, (parentheses_styled_by_nesting e).2 (4, 17) member⟩

end Expression

end Arithmetization
