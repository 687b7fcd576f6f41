import Arithmetization.Proofs.Construction.PostOrder

/-! # A construction determines its expression

Steps say little of a node one by one: all atoms but `0` share a label, and so do both quantifiers.
Taken together they lose nothing. The step of a node tells its form and its symbols: the kind and
the number of inputs leave open only whether a successor or a negation is meant, and the texts agree
except for the part that names the symbol. The inputs of the last step tell how many of the steps
before it belong to each subtree.
-/

namespace Arithmetization

/-! ## Texts -/

theorem Quantifier.adjective_injective : Function.Injective adjective := by
  intro q q' same
  cases q <;> cases q' <;> first | rfl | exact absurd same (by decide)

theorem Operator.description_injective : Function.Injective description := by
  intro op op' same
  cases op <;> cases op' <;> first | rfl | exact absurd same (by decide)

namespace Step

theorem symbolText_eq (symbol : Option Symbol) :
    symbolText symbol = String.singleton (symbol.elim '?' Symbol.char) := by
  cases symbol <;> rfl

/-- A symbol is told from the others by its text, and no symbol is written as a question mark. -/
theorem symbolText_injective : Function.Injective symbolText := by
  intro symbol symbol' same
  rw [symbolText_eq, symbolText_eq, String.singleton_inj] at same
  have known : ∀ s ∈ Symbol.all, s.char ≠ '?' := by decide
  cases symbol with
  | none =>
    cases symbol' with
    | none => rfl
    | some t => exact absurd same.symm (known t t.mem_all)
  | some s =>
    cases symbol' with
    | none => exact absurd same (known s s.mem_all)
    | some t => rw [Symbol.char_injective s s.mem_all t t.mem_all same]

/-! ## The step of a node -/

@[simp] theorem kind_ofAtom (index : Nat) (symbol : Option Symbol) :
    (ofAtom index symbol).kind = .basic := by
  rw [ofAtom.eq_def]
  split <;> rfl

theorem label_ofAtom (index : Nat) (symbol : Option Symbol) :
    (ofAtom index symbol).label =
      functionName index ++ if symbol = some .zero then " = Z" else " = I" := by
  rw [ofAtom.eq_def]
  split <;> simp_all

/-- The label of an atom only tells `0` from the rest; the description tells the rest apart. -/
theorem ofAtom_injective (index : Nat) : Function.Injective (ofAtom index) := by
  intro symbol symbol' same
  have labels := congrArg label same
  rw [label_ofAtom, label_ofAtom, String.append_right_inj] at labels
  by_cases zero : symbol = some .zero <;> by_cases zero' : symbol' = some .zero
  · rw [zero, zero']
  · rw [if_pos zero, if_neg zero'] at labels
    exact absurd labels (by decide)
  · rw [if_neg zero, if_pos zero'] at labels
    exact absurd labels (by decide)
  · rw [ofAtom.eq_2 index symbol zero, ofAtom.eq_2 index symbol' zero'] at same
    have descriptions := congrArg description same
    rw [String.append_left_inj, String.append_right_inj] at descriptions
    exact symbolText_injective descriptions

theorem ofSuccessor_ne_ofNegation (index input index' input' : Nat) :
    ofSuccessor index input ≠ ofNegation index' input' := by
  intro same
  obtain rfl : input = input' := List.cons.inj (congrArg inputs same) |>.1
  have descriptions := congrArg description same
  simp only [ofSuccessor, ofNegation, String.append_left_inj] at descriptions
  exact absurd descriptions (by decide)

theorem ofBinary_inj {index index' left left' right right' : Nat} {op op' : Operator}
    (same : ofBinary index op left right = ofBinary index' op' left' right') :
    op = op' ∧ left = left' ∧ right = right' := by
  obtain ⟨rfl, rfl⟩ : left = left' ∧ right = right' := by
    simpa [ofBinary] using congrArg inputs same
  have descriptions := congrArg description same
  simp only [ofBinary, String.append_left_inj, String.append_right_inj] at descriptions
  exact ⟨Operator.description_injective descriptions, rfl, rfl⟩

/-- The label of a quantifier tells the bound symbol, and the description which quantifier it is. -/
theorem ofQuantified_inj {index index' input input' : Nat} {q q' : Quantifier}
    {bound bound' : Option Symbol}
    (same : ofQuantified index q bound input = ofQuantified index' q' bound' input') :
    q = q' ∧ bound = bound' ∧ input = input' := by
  obtain rfl : index = index' := congrArg Step.index same
  obtain rfl : input = input' := List.cons.inj (congrArg inputs same) |>.1
  have labels := congrArg label same
  simp only [ofQuantified, String.append_left_inj, String.append_right_inj] at labels
  obtain rfl := symbolText_injective labels
  have descriptions := congrArg description same
  simp only [ofQuantified, String.append_left_inj, String.append_right_inj] at descriptions
  exact ⟨Quantifier.adjective_injective descriptions, rfl, rfl⟩

end Step

/-! ## The root of an expression -/

namespace Expression

/-- Two expressions have the same form and the same symbols at the root; their children may be any.
-/
inductive SameRoot : Expression → Expression → Prop where
  | atom (symbol : Option Symbol) : SameRoot (.atom symbol) (.atom symbol)
  | successor (operand operand' : Expression) : SameRoot (.successor operand) (.successor operand')
  | negation (operand operand' : Expression) : SameRoot (.negation operand) (.negation operand')
  | binary (op : Operator) (left right left' right' : Expression) :
    SameRoot (.binary op left right) (.binary op left' right')
  | quantified (q : Quantifier) (bound : Option Symbol) (body body' : Expression) :
    SameRoot (.quantified q bound body) (.quantified q bound body')

end Expression

/-- The step of a node determines the form and the symbols of the node. -/
theorem Step.sameRoot_of_ofNode {index index' : Nat} {node node' : Expression}
    {input input' : Nat → Nat} (same : ofNode index node input = ofNode index' node' input') :
    node.SameRoot node' := by
  have kinds := congrArg kind same
  have arities := congrArg (List.length ∘ inputs) same
  cases node with
  | atom symbol =>
    cases node' with
    | atom symbol' =>
      obtain rfl : index = index' := by simpa [ofNode] using congrArg Step.index same
      obtain rfl := ofAtom_injective index same
      exact .atom symbol
    | _ => simp [ofNode, ofSuccessor, ofNegation, ofBinary, ofQuantified] at kinds
  | successor operand =>
    cases node' with
    | successor operand' => exact .successor operand operand'
    | negation operand' => exact absurd same (ofSuccessor_ne_ofNegation _ _ _ _)
    | _ => simp [ofNode, ofSuccessor, ofBinary, ofQuantified] at kinds arities
  | negation operand =>
    cases node' with
    | negation operand' => exact .negation operand operand'
    | successor operand' => exact absurd same.symm (ofSuccessor_ne_ofNegation _ _ _ _)
    | _ => simp [ofNode, ofNegation, ofBinary, ofQuantified] at kinds arities
  | binary op left right =>
    cases node' with
    | binary op' left' right' =>
      obtain ⟨rfl, -, -⟩ := ofBinary_inj same
      exact .binary op left right left' right'
    | _ => simp [ofNode, ofSuccessor, ofNegation, ofBinary, ofQuantified] at kinds arities
  | quantified q bound body =>
    cases node' with
    | quantified q' bound' body' =>
      obtain ⟨rfl, rfl, -⟩ := ofQuantified_inj same
      exact .quantified q bound body body'
    | _ => simp [ofNode, ofSuccessor, ofNegation, ofBinary, ofQuantified] at kinds

namespace Expression

/-! ## From the steps back to the expression -/

theorem getLast?_stepsFrom (next : Nat) (e : Expression) :
    (e.stepsFrom next).getLast? = some (e.stepAt next []) := by
  rw [stepsFrom_eq_map, postorder_eq, List.map_append, List.map_singleton, List.getLast?_concat]

theorem length_stepsFrom (next : Nat) (e : Expression) :
    (e.stepsFrom next).length = e.nodeCount := by
  rw [stepsFrom_eq_map, List.length_map, length_postorder]

theorem sameRoot_of_stepsFrom {next : Nat} {e e' : Expression}
    (same : e.stepsFrom next = e'.stepsFrom next) : e.SameRoot e' := by
  have last := congrArg List.getLast? same
  rw [getLast?_stepsFrom, getLast?_stepsFrom, Option.some_inj] at last
  exact Step.sameRoot_of_ofNode last

/-- Steps that are numbered from the same number determine their expression. -/
theorem stepsFrom_injective (next : Nat) : Function.Injective (stepsFrom next) := by
  intro e e' same
  induction e generalizing next e' with
  | atom symbol =>
    cases sameRoot_of_stepsFrom same with
    | atom => rfl
  | successor operand ih =>
    cases sameRoot_of_stepsFrom same with
    | successor _ operand' =>
      rw [ih next (List.append_inj_left' same rfl)]
  | negation operand ih =>
    cases sameRoot_of_stepsFrom same with
    | negation _ operand' =>
      rw [ih next (List.append_inj_left' same rfl)]
  | binary op left right ihLeft ihRight =>
    cases sameRoot_of_stepsFrom same with
    | binary _ _ _ left' right' =>
      obtain ⟨below, last⟩ := List.append_singleton_inj.mp same
      -- The first input of the last step is where the steps of the left operand end.
      have counts : left.nodeCount = left'.nodeCount := by
        have ends := (Step.ofBinary_inj last).2.1
        have := left.nodeCount_pos
        have := left'.nodeCount_pos
        omega
      obtain ⟨sameLeft, sameRight⟩ := List.append_inj below (by
        rw [length_stepsFrom, length_stepsFrom, counts])
      rw [← counts] at sameRight
      rw [ihLeft next sameLeft, ihRight _ sameRight]
  | quantified q bound body ih =>
    cases sameRoot_of_stepsFrom same with
    | quantified _ _ _ body' =>
      rw [ih next (List.append_inj_left' same rfl)]

/-- Two expressions are constructed by the same steps only if they are the same. -/
theorem construct_inj (e e' : Expression) : e.construct = e'.construct ↔ e = e' := by
  constructor
  · intro same
    rw [construct_eq_stepsFrom, construct_eq_stepsFrom] at same
    exact stepsFrom_injective 1 same
  · rintro rfl
    rfl

end Expression

end Arithmetization
