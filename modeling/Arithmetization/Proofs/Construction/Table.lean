import Arithmetization.Construction
import Arithmetization.Proofs.Decimal

/-! # The table of steps

A step says of its node what a table says of nodes of this form: the kind of construction, a label
and a sentence. The table is given row by row with its words spelled out, so nothing in it comes
from the functions that build steps.
-/

namespace Arithmetization

/-- The words for an operator: the name of its function and the noun for what it does. -/
inductive Operator.Worded : Operator → String → String → Prop where
  | disjunction : Worded .disjunction "or" "Disjunction"
  | conjunction : Worded .conjunction "and" "Conjunction"
  | implication : Worded .implication "impl" "Implication"
  | equivalence : Worded .equivalence "equiv" "Equivalence"
  | equality : Worded .equality "eq" "Equality"
  | addition : Worded .addition "add" "Addition"
  | multiplication : Worded .multiplication "mul" "Multiplication"

/-- The adjective for a quantifier. -/
inductive Quantifier.Worded : Quantifier → String → Prop where
  | universal : Worded .universal "universal"
  | existential : Worded .existential "existential"

/-- How the symbol of an atom or of a quantifier is shown; a question mark stands for none. -/
inductive Symbol.Shown : Option Symbol → String → Prop where
  | given (symbol : Symbol) : Shown (some symbol) (String.singleton symbol.char)
  | missing : Shown none "?"

/-- Step number `k` is for a node whose children have the steps of the given numbers. -/
inductive Step.IsFor (k : Nat) : Expression → List Nat → Step → Prop where
  | zero : IsFor k (.atom (some .zero)) []
      ⟨k, .basic, s!"f_{k} = Z", "Zero function: Z(x) = 0", []⟩
  | atom {symbol : Option Symbol} {shown : String} (other : symbol ≠ some .zero)
      (written : Symbol.Shown symbol shown) : IsFor k (.atom symbol) []
        ⟨k, .basic, s!"f_{k} = I", s!"Identity/projection function for {shown}: I(x) = x", []⟩
  | successor {operand : Expression} {i : Nat} : IsFor k (.successor operand) [i]
      ⟨k, .composition, s!"f_{k} = S(f_{i})", s!"Composition: successor applied to f_{i}", [i]⟩
  | negation {operand : Expression} {i : Nat} : IsFor k (.negation operand) [i]
      ⟨k, .composition, s!"f_{k} = not(f_{i})", s!"Composition: logical NOT of f_{i}", [i]⟩
  | binary {op : Operator} {left right : Expression} {name noun : String} {i j : Nat}
      (worded : op.Worded name noun) : IsFor k (.binary op left right) [i, j]
        ⟨k, .composition, s!"f_{k} = {name}(f_{i}, f_{j})",
          s!"Composition: {noun} of f_{i} and f_{j}", [i, j]⟩
  | quantified {q : Quantifier} {bound : Option Symbol} {body : Expression}
      {adjective shown : String} {i : Nat} (worded : q.Worded adjective)
      (written : Symbol.Shown bound shown) : IsFor k (.quantified q bound body) [i]
        ⟨k, .minimization, s!"f_{k} = μ{shown}.f_{i}",
          s!"Minimization: {adjective} quantifier over {shown} applied to f_{i}", [i]⟩

theorem Operator.worded (op : Operator) : op.Worded op.name op.description := by
  cases op <;> constructor

theorem Quantifier.worded (q : Quantifier) : q.Worded q.adjective := by
  cases q <;> constructor

namespace Step

theorem shown_symbolText (symbol : Option Symbol) : Symbol.Shown symbol (symbolText symbol) := by
  cases symbol <;> constructor

/-! ## Steps as the table has them -/

theorem functionName_eq (k : Nat) : functionName k = s!"f_{k}" := by
  rw [functionName, Decimal.text_eq_toString, toString_string]

section

variable (k i j : Nat)

theorem ofZero_eq : ofAtom k (some .zero) =
    ⟨k, .basic, s!"f_{k} = Z", "Zero function: Z(x) = 0", []⟩ := by
  simp [ofAtom, functionName_eq]

theorem ofAtom_eq {symbol : Option Symbol} (other : symbol ≠ some .zero) : ofAtom k symbol =
    ⟨k, .basic, s!"f_{k} = I",
      s!"Identity/projection function for {symbolText symbol}: I(x) = x", []⟩ := by
  simp [ofAtom.eq_2 k symbol other, functionName_eq]

theorem ofSuccessor_eq : ofSuccessor k i =
    ⟨k, .composition, s!"f_{k} = S(f_{i})", s!"Composition: successor applied to f_{i}", [i]⟩ := by
  simp [ofSuccessor, functionName_eq, ← String.toList_inj]

theorem ofNegation_eq : ofNegation k i =
    ⟨k, .composition, s!"f_{k} = not(f_{i})", s!"Composition: logical NOT of f_{i}", [i]⟩ := by
  simp [ofNegation, functionName_eq, ← String.toList_inj]

theorem ofBinary_eq (op : Operator) : ofBinary k op i j =
    ⟨k, .composition, s!"f_{k} = {op.name}(f_{i}, f_{j})",
      s!"Composition: {op.description} of f_{i} and f_{j}", [i, j]⟩ := by
  simp [ofBinary, functionName_eq, ← String.toList_inj]

theorem ofQuantified_eq (q : Quantifier) (bound : Option Symbol) : ofQuantified k q bound i =
    ⟨k, .minimization, s!"f_{k} = μ{symbolText bound}.f_{i}",
      s!"Minimization: {q.adjective} quantifier over {symbolText bound} applied to f_{i}", [i]⟩ := by
  simp [ofQuantified, functionName_eq, ← String.toList_inj]

end

/-- The step of a node whose child number `k` has the function `input k`. -/
def ofNode (index : Nat) (node : Expression) (input : Nat → Nat) : Step :=
  match node with
  | .atom symbol => .ofAtom index symbol
  | .successor _ => .ofSuccessor index (input 0)
  | .negation _ => .ofNegation index (input 0)
  | .binary op _ _ => .ofBinary index op (input 0) (input 1)
  | .quantified q bound _ => .ofQuantified index q bound (input 0)

section

variable (index : Nat) (node : Expression) (input : Nat → Nat)

@[simp] theorem index_ofAtom (symbol : Option Symbol) : (ofAtom index symbol).index = index := by
  rw [ofAtom.eq_def]
  split <;> rfl

@[simp] theorem inputs_ofAtom (symbol : Option Symbol) : (ofAtom index symbol).inputs = [] := by
  rw [ofAtom.eq_def]
  split <;> rfl

theorem index_ofNode : (ofNode index node input).index = index := by
  cases node with
  | atom symbol => exact index_ofAtom index symbol
  | _ => rfl

/-- The inputs of a step are the functions of the children in their order. -/
theorem inputs_ofNode :
    (ofNode index node input).inputs = (List.range node.children.length).map input := by
  cases node with
  | atom symbol => exact inputs_ofAtom index symbol
  | _ => rfl

/-- The step of a node is the one that the table has for it. -/
theorem isFor_ofNode : (ofNode index node input).IsFor index node
    (ofNode index node input).inputs := by
  cases node with
  | atom symbol =>
    by_cases zero : symbol = some .zero
    · subst zero
      simp only [ofNode, ofZero_eq]
      exact .zero
    · simp only [ofNode, ofAtom_eq index zero]
      exact .atom zero (shown_symbolText symbol)
  | successor operand =>
    simp only [ofNode, ofSuccessor_eq]
    exact .successor
  | negation operand =>
    simp only [ofNode, ofNegation_eq]
    exact .negation
  | binary op left right =>
    simp only [ofNode, ofBinary_eq]
    exact .binary op.worded
  | quantified q bound body =>
    simp only [ofNode, ofQuantified_eq]
    exact .quantified q.worded (shown_symbolText bound)

end

end Step

end Arithmetization
