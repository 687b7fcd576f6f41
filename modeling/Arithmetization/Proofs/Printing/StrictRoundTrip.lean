import Arithmetization.Proofs.Grammar.Recognition
import Arithmetization.Proofs.Printing.Written

/-! # Strict reading inverts printing

A well-formed expression is printed as the symbols of a greedy derivation of it, and the strict
reader finds the tree of that derivation. Conversely every tree of a derivation is well formed, so
no other expression survives being printed and read.
-/

namespace Arithmetization

namespace Expression

/-- Every atom is `0` or a letter and every quantifier binds a letter. -/
def WellFormed : Expression → Prop
  | atom symbol => symbol = some .zero ∨ ∃ v, symbol = some (.letter v)
  | successor operand => operand.WellFormed
  | negation operand => operand.WellFormed
  | binary _ left right => left.WellFormed ∧ right.WellFormed
  | quantified _ bound body => (∃ v, bound = some (.letter v)) ∧ body.WellFormed

end Expression

namespace Strict

open Expression

variable {c : Category} {e : Expression} {tail : Bool}

theorem Derivation.wellFormed_tree (d : Derivation c) : d.tree.WellFormed := by
  induction d with
  | single t ih => exact ih
  | chain left op right ihLeft ihRight => exact ⟨ihLeft, ihRight⟩
  | parenthesized inner ih => exact ih
  | negation operand ih => exact ih
  | successor operand ih => exact ih
  | quantified q v body ih => exact ⟨⟨v, rfl⟩, ih⟩
  | zero => exact .inl rfl
  | letter v => exact .inr ⟨v, rfl⟩

/-- A greedy derivation of an expression from the given symbols, which an operator may follow unless
the expression stands at the tail of the enclosing one. -/
structure Spells (d : Derivation c) (symbols : List Symbol) (e : Expression) (tail : Bool) :
    Prop where
  symbols : d.symbols = symbols
  tree : d.tree = e
  greedy : d.Greedy
  closed : tail = false → d.endsInQuantifier = false

/-- An expression is spelled as a phrase of its own and, with the parentheses that it gets as an
operand, as a term. -/
def IsSpelled (e : Expression) : Prop :=
  (∀ tail, ∃ d : Derivation .expression, Spells d (e.written tail) e tail) ∧
    ∀ tail, ∃ t : Derivation .term, Spells t (group e.isBinary tail e.written) e tail

theorem IsSpelled.of_term (single : e.isBinary = false)
    (spelled : ∀ tail, ∃ t : Derivation .term, Spells t (e.written tail) e tail) :
    IsSpelled e := by
  refine ⟨fun tail => ?_, fun tail => ?_⟩
  · obtain ⟨t, symbols, tree, greedy, closed⟩ := spelled tail
    exact ⟨.single t, symbols, tree, greedy, closed⟩
  · rw [single]
    exact spelled tail

theorem IsSpelled.of_binary (binary : e.isBinary = true)
    (spelled : ∀ tail, ∃ d : Derivation .expression, Spells d (e.written tail) e tail) :
    IsSpelled e := by
  refine ⟨spelled, fun tail => ?_⟩
  obtain ⟨d, symbols, tree, greedy, _⟩ := spelled true
  refine ⟨.parenthesized d, ?_, tree, greedy, fun _ => rfl⟩
  rw [binary, group, if_pos rfl, parenthesize, ← symbols]
  rfl

/-- A quantifier is put in parentheses unless it stands at the tail. -/
theorem isSpelled_quantified {q : Quantifier} {v : Letter} {body : Expression}
    (spelled : IsSpelled body) : IsSpelled (.quantified q (some (.letter v)) body) := by
  refine .of_term rfl fun tail => ?_
  obtain ⟨t, symbols, tree, greedy, _⟩ := spelled.2 true
  have open' : (Derivation.quantified q v (.single t)).symbols =
      .quantifier q :: .letter v :: group body.isBinary true body.written := by
    rw [← symbols]
    rfl
  cases tail with
  | true =>
    exact ⟨.quantified q v (.single t), open', by rw [← tree]; rfl, greedy, fun h => by cases h⟩
  | false =>
    refine ⟨.parenthesized (.single (.quantified q v (.single t))), ?_, by rw [← tree]; rfl,
      greedy, fun _ => rfl⟩
    change .opening :: ((Derivation.quantified q v (.single t)).symbols ++ [.closing]) = _
    rw [open']
    rfl

theorem isSpelled_of_wellFormed (wellFormed : e.WellFormed) : IsSpelled e := by
  induction e with
  | atom symbol =>
    refine .of_term rfl fun tail => ?_
    obtain rfl | ⟨v, rfl⟩ := wellFormed
    · exact ⟨.zero, rfl, rfl, trivial, fun _ => rfl⟩
    · exact ⟨.letter v, rfl, rfl, trivial, fun _ => rfl⟩
  | successor operand ih =>
    refine .of_term rfl fun tail => ?_
    obtain ⟨t, symbols, tree, greedy, closed⟩ := (ih wellFormed).2 tail
    exact ⟨.successor t, by rw [written, ← symbols]; rfl, by rw [← tree]; rfl, greedy, closed⟩
  | negation operand ih =>
    refine .of_term rfl fun tail => ?_
    obtain ⟨t, symbols, tree, greedy, closed⟩ := (ih wellFormed).2 tail
    exact ⟨.negation t, by rw [written, ← symbols]; rfl, by rw [← tree]; rfl, greedy, closed⟩
  | binary op left right ihLeft ihRight =>
    refine .of_binary rfl fun tail => ?_
    obtain ⟨l, symbolsLeft, treeLeft, greedyLeft, closedLeft⟩ := (ihLeft wellFormed.1).1 false
    obtain ⟨r, symbolsRight, treeRight, greedyRight, closedRight⟩ := (ihRight wellFormed.2).2 tail
    refine ⟨.chain l op r, ?_, ?_, ⟨closedLeft rfl, greedyLeft, greedyRight⟩, closedRight⟩
    · rw [written, ← symbolsLeft, ← symbolsRight]
      rfl
    · rw [← treeLeft, ← treeRight]
      rfl
  | quantified q bound body ih =>
    obtain ⟨⟨v, rfl⟩, wellFormedBody⟩ := wellFormed
    exact isSpelled_quantified (ih wellFormedBody)

/-- An expression survives being printed and strictly read exactly when it is well formed. -/
theorem parseFormula_text_iff (e : Expression) :
    parseFormula e.text = .ok e ↔ e.WellFormed := by
  rw [parseFormula, parse_eq_ok_iff, symbols_scan_text]
  constructor
  · rintro ⟨d, _, _, rfl⟩
    exact d.wellFormed_tree
  · intro wellFormed
    obtain ⟨d, symbols, tree, greedy, _⟩ := (isSpelled_of_wellFormed wellFormed).1 true
    exact ⟨d, symbols, greedy, tree⟩

end Strict

end Arithmetization
