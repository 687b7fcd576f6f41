import Arithmetization.Grammar.Strict

/-! # Derivations of the strict grammar

The context-free grammar of formulas has two categories, `E ::= T | E op T` and
`T ::= ( E ) | ¬ T | S T | (∀|∃) v E | 0 | v`. It is ambiguous: an operator after a quantified term
may continue the body of the quantifier or any expression around it. A greedy derivation never
puts an operator after a term that ends in an unparenthesized quantifier, so quantifier bodies
extend as far to the right as they can.

`Derivation.eq_of_symbols_eq` says that a list of symbols has at most one greedy derivation. That
it has one whenever it has any is proved with the reader of the strict grammar.
-/

namespace Arithmetization.Strict

/-- The categories of the grammar. -/
inductive Category where
  | expression
  | term
deriving DecidableEq, Repr

/-- The derivations of a category, with one constructor for each production. -/
inductive Derivation : Category → Type where
  | single (term : Derivation .term) : Derivation .expression
  | chain (left : Derivation .expression) (op : Operator) (right : Derivation .term) :
      Derivation .expression
  | parenthesized (inner : Derivation .expression) : Derivation .term
  | negation (operand : Derivation .term) : Derivation .term
  | successor (operand : Derivation .term) : Derivation .term
  | quantified (q : Quantifier) (v : Letter) (body : Derivation .expression) : Derivation .term
  | zero : Derivation .term
  | letter (v : Letter) : Derivation .term

namespace Derivation

variable {c : Category}

/-- The symbols that a derivation generates. -/
def symbols : {c : Category} → Derivation c → List Symbol
  | _, single t => t.symbols
  | _, chain left op right => left.symbols ++ .operator op :: right.symbols
  | _, parenthesized inner => .opening :: (inner.symbols ++ [.closing])
  | _, negation operand => .negation :: operand.symbols
  | _, successor operand => .successor :: operand.symbols
  | _, quantified q v body => .quantifier q :: .letter v :: body.symbols
  | _, zero => [.zero]
  | _, letter v => [.letter v]

/-- The abstract tree of a derivation, which has no place for parentheses. -/
def tree : {c : Category} → Derivation c → Expression
  | _, single t => t.tree
  | _, chain left op right => .binary op left.tree right.tree
  | _, parenthesized inner => inner.tree
  | _, negation operand => .negation operand.tree
  | _, successor operand => .successor operand.tree
  | _, quantified q v body => .quantified q (some (.letter v)) body.tree
  | _, zero => .atom (some .zero)
  | _, letter v => .atom (some (.letter v))

/-- Whether a phrase ends, through prefix operators and right operands, in a quantified term that
no parenthesis closes. -/
def endsInQuantifier : {c : Category} → Derivation c → Bool
  | _, single t => t.endsInQuantifier
  | _, chain _ _ right => right.endsInQuantifier
  | _, parenthesized _ => false
  | _, negation operand => operand.endsInQuantifier
  | _, successor operand => operand.endsInQuantifier
  | _, quantified _ _ _ => true
  | _, zero => false
  | _, letter _ => false

/-- No operator directly follows a term that ends in an unparenthesized quantifier. The terms that
an operator follows are those at the right end of its left operand. -/
def Greedy : {c : Category} → Derivation c → Prop
  | _, single t => t.Greedy
  | _, chain left _ right => left.endsInQuantifier = false ∧ left.Greedy ∧ right.Greedy
  | _, parenthesized inner => inner.Greedy
  | _, negation operand => operand.Greedy
  | _, successor operand => operand.Greedy
  | _, quantified _ _ body => body.Greedy
  | _, zero => True
  | _, letter _ => True

/-- A term as a phrase of any category. -/
def ofTerm : (c : Category) → Derivation .term → Derivation c
  | .term, t => t
  | .expression, t => single t

@[simp] theorem symbols_ofTerm (c : Category) (t : Derivation .term) :
    (ofTerm c t).symbols = t.symbols := by cases c <;> rfl

@[simp] theorem tree_ofTerm (c : Category) (t : Derivation .term) :
    (ofTerm c t).tree = t.tree := by cases c <;> rfl

@[simp] theorem greedy_ofTerm (c : Category) (t : Derivation .term) :
    (ofTerm c t).Greedy ↔ t.Greedy := by cases c <;> rfl

/-! ## Chains of operands -/

/-- The operators and right operands that continue an expression. -/
abbrev Links := List (Operator × Derivation .term)

/-- An expression continued by further operands. -/
def extend (d : Derivation .expression) (links : Links) : Derivation .expression :=
  links.foldl (fun left link => chain left link.1 link.2) d

/-- The symbols of the operators and operands that continue an expression. -/
def linkSymbols (links : Links) : List Symbol :=
  links.flatMap fun link => .operator link.1 :: link.2.symbols

@[simp] theorem extend_nil (d : Derivation .expression) : d.extend [] = d := rfl

@[simp] theorem extend_cons (d : Derivation .expression) (op : Operator) (t : Derivation .term)
    (links : Links) : d.extend ((op, t) :: links) = (chain d op t).extend links := rfl

@[simp] theorem linkSymbols_nil : linkSymbols [] = [] := rfl

@[simp] theorem linkSymbols_cons (op : Operator) (t : Derivation .term) (links : Links) :
    linkSymbols ((op, t) :: links) = .operator op :: (t.symbols ++ linkSymbols links) := rfl

theorem symbols_extend (d : Derivation .expression) (links : Links) :
    (d.extend links).symbols = d.symbols ++ linkSymbols links := by
  induction links generalizing d with
  | nil => simp
  | cons link links ih =>
    obtain ⟨op, t⟩ := link
    simp [ih, symbols]

/-- Only the last phrase of a greedy chain may end in a quantifier. -/
theorem greedy_of_extend {d : Derivation .expression} {links : Links}
    (greedy : (d.extend links).Greedy) :
    d.Greedy ∧ (links ≠ [] → d.endsInQuantifier = false) := by
  induction links generalizing d with
  | nil => exact ⟨greedy, fun nonempty => (nonempty rfl).elim⟩
  | cons link links ih =>
    obtain ⟨⟨closed, left, _⟩, _⟩ := ih greedy
    exact ⟨left, fun _ => closed⟩

/-- Every expression is a first term with the operands that continue it. -/
theorem exists_extend_single (d : Derivation .expression) :
    ∃ t links, d = (single t).extend links := by
  cases d with
  | single t => exact ⟨t, [], rfl⟩
  | chain left op right =>
    obtain ⟨t, links, rfl⟩ := exists_extend_single left
    exact ⟨t, links ++ [(op, right)], by simp [extend]⟩

/-! ## Unique reading -/

/-- Whether an operator comes next. -/
def beginsWithOperator : List Symbol → Bool
  | .operator _ :: _ => true
  | _ => false

/-- What may follow a phrase of a greedy derivation. -/
def Precedes (d : Derivation c) (rest : List Symbol) : Prop :=
  d.endsInQuantifier = true → beginsWithOperator rest = false

/-- Two phrases at the beginning of the same symbols: terms are equal, and of two expressions one
continues the other. -/
def Aligned : {c : Category} → (d d' : Derivation c) → (rest rest' : List Symbol) → Prop
  | .term, d, d', rest, rest' => d = d' ∧ rest = rest'
  | .expression, d, d', rest, rest' => ∃ links,
    (d' = d.extend links ∧ rest = linkSymbols links ++ rest') ∨
      (d = d'.extend links ∧ rest' = linkSymbols links ++ rest)

/-- Without an operator after them, aligned expressions are equal. -/
theorem eq_of_aligned {d d' : Derivation .expression} {rest rest' : List Symbol}
    (aligned : Aligned d d' rest rest') (ends : beginsWithOperator rest = false)
    (ends' : beginsWithOperator rest' = false) : d = d' ∧ rest = rest' := by
  obtain ⟨links, ⟨rfl, rfl⟩ | ⟨rfl, rfl⟩⟩ := aligned
  · cases links with
    | nil => exact ⟨rfl, rfl⟩
    | cons link links => simp [beginsWithOperator, linkSymbols] at ends
  · cases links with
    | nil => exact ⟨rfl, rfl⟩
    | cons link links => simp [beginsWithOperator, linkSymbols] at ends'

/-- The first operand of a greedy chain precedes the rest of it. -/
theorem Precedes.extend (t : Derivation .term) (d : Derivation .expression) (links : Links)
    (rest : List Symbol) (last : d.endsInQuantifier = t.endsInQuantifier)
    (greedy : (d.extend links).Greedy) (precedes : Precedes (d.extend links) rest) :
    Precedes t (linkSymbols links ++ rest) := by
  intro ends
  cases links with
  | nil => exact precedes (last.trans ends)
  | cons link links =>
    have closed := (greedy_of_extend greedy).2 (List.cons_ne_nil link links)
    rw [last, ends] at closed
    contradiction

/-- If the left operand is aligned with an expression and the right operand with every term that
starts at the same symbol, the chain of both is aligned with the expression. -/
theorem Aligned.chain {left d' : Derivation .expression} {op : Operator}
    {right : Derivation .term} {rest rest' : List Symbol}
    (aligned : Aligned left d' (.operator op :: (right.symbols ++ rest)) rest')
    (greedy' : d'.Greedy) (precedes' : Precedes d' rest')
    (next : ∀ (t : Derivation .term) (more : List Symbol), t.Greedy → Precedes t more →
      right.symbols ++ rest = t.symbols ++ more → Aligned right t rest more) :
    Aligned (Derivation.chain left op right) d' rest rest' := by
  obtain ⟨links, ⟨rfl, tail⟩ | ⟨rfl, rfl⟩⟩ := aligned
  · cases links with
    | nil =>
      refine ⟨[(op, right)], .inr ⟨rfl, ?_⟩⟩
      simpa using tail.symm
    | cons link links =>
      -- The other expression goes on past `left`, with the same operator and its own operand.
      obtain ⟨op', right'⟩ := link
      simp only [linkSymbols_cons, List.cons_append, List.cons.injEq, Symbol.operator.injEq,
        List.append_assoc] at tail
      obtain ⟨rfl, tail⟩ := tail
      obtain ⟨_, _, greedyRight'⟩ :=
        (greedy_of_extend (d := Derivation.chain left op right') greedy').1
      obtain ⟨rfl, rfl⟩ := next right' _ greedyRight'
        (precedes'.extend right' (Derivation.chain left op right') links rest' rfl greedy') tail
      exact ⟨links, .inl ⟨rfl, rfl⟩⟩
  · refine ⟨links ++ [(op, right)], .inr ⟨by simp [extend], ?_⟩⟩
    simp [linkSymbols]

/-- Greedy phrases that begin the same symbols are aligned, by induction on the first phrase. -/
theorem aligned (d d' : Derivation c) (rest rest' : List Symbol) (greedy : d.Greedy)
    (greedy' : d'.Greedy) (precedes : Precedes d rest) (precedes' : Precedes d' rest')
    (same : d.symbols ++ rest = d'.symbols ++ rest') : Aligned d d' rest rest' := by
  induction d generalizing rest rest' with
  | single t ih =>
    obtain ⟨t', links, rfl⟩ := exists_extend_single d'
    rw [symbols_extend, List.append_assoc] at same
    obtain ⟨rfl, rfl⟩ := ih t' rest _ greedy (greedy_of_extend greedy').1 precedes
      (precedes'.extend t' (single t') links rest' rfl greedy') same
    exact ⟨links, .inl ⟨rfl, rfl⟩⟩
  | chain left op right ihLeft ihRight =>
    obtain ⟨closed, greedyLeft, greedyRight⟩ := greedy
    have same : left.symbols ++ (.operator op :: (right.symbols ++ rest)) =
        d'.symbols ++ rest' := by simpa [symbols] using same
    have alignedLeft := ihLeft d' _ rest' greedyLeft greedy' (by simp [Precedes, closed]) precedes'
      same
    refine alignedLeft.chain greedy' precedes' fun t more greedy precedesMore same => ?_
    exact ihRight t rest more greedyRight greedy precedes precedesMore same
  | parenthesized inner ih =>
    cases d' with
    | parenthesized inner' =>
      have same : inner.symbols ++ (.closing :: rest) = inner'.symbols ++ (.closing :: rest') := by
        simpa [symbols] using same
      obtain ⟨rfl, tail⟩ :=
        eq_of_aligned (ih inner' _ _ greedy greedy' (fun _ => rfl) (fun _ => rfl) same) rfl rfl
      exact ⟨rfl, List.tail_eq_of_cons_eq tail⟩
    | _ => simp [symbols] at same
  | negation operand ih =>
    cases d' with
    | negation operand' =>
      have same : operand.symbols ++ rest = operand'.symbols ++ rest' := by
        simpa [symbols] using same
      obtain ⟨rfl, rfl⟩ := ih operand' rest rest' greedy greedy' precedes precedes' same
      exact ⟨rfl, rfl⟩
    | _ => simp [symbols] at same
  | successor operand ih =>
    cases d' with
    | successor operand' =>
      have same : operand.symbols ++ rest = operand'.symbols ++ rest' := by
        simpa [symbols] using same
      obtain ⟨rfl, rfl⟩ := ih operand' rest rest' greedy greedy' precedes precedes' same
      exact ⟨rfl, rfl⟩
    | _ => simp [symbols] at same
  | quantified q v body ih =>
    cases d' with
    | quantified q' v' body' =>
      have ends := precedes rfl
      have ends' := precedes' rfl
      simp only [symbols, List.cons_append, List.cons.injEq, Symbol.quantifier.injEq,
        Symbol.letter.injEq] at same
      obtain ⟨rfl, rfl, same⟩ := same
      obtain ⟨rfl, rfl⟩ := eq_of_aligned
        (ih body' rest rest' greedy greedy' (fun _ => ends) (fun _ => ends') same) ends ends'
      exact ⟨rfl, rfl⟩
    | _ => simp [symbols] at same
  | zero =>
    cases d' with
    | zero => exact ⟨rfl, List.tail_eq_of_cons_eq same⟩
    | _ => simp [symbols] at same
  | letter v =>
    cases d' with
    | letter v' =>
      simp only [symbols, List.cons_append, List.cons.injEq, Symbol.letter.injEq] at same
      obtain ⟨rfl, same⟩ := same
      exact ⟨rfl, same⟩
    | _ => simp [symbols] at same

/-- A list of symbols has at most one greedy derivation. -/
theorem eq_of_symbols_eq {d d' : Derivation .expression} (greedy : d.Greedy) (greedy' : d'.Greedy)
    (same : d.symbols = d'.symbols) : d = d' := by
  have whole : d.symbols ++ [] = d'.symbols ++ [] := by rw [same]
  exact (eq_of_aligned
    (aligned d d' [] [] greedy greedy' (fun _ => rfl) (fun _ => rfl) whole) rfl rfl).1

end Derivation

/-- A sentence is generated by the grammar. -/
def IsSentence (symbols : List Symbol) : Prop :=
  ∃ d : Derivation .expression, d.symbols = symbols

/-- A viable list of symbols is a beginning of a sentence. -/
def IsViable (symbols : List Symbol) : Prop := ∃ rest, IsSentence (symbols ++ rest)

end Arithmetization.Strict
