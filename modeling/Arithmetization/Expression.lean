import Arithmetization.Symbol

/-! # Expressions

The tree of a formula. Trees that no reader of formulas produces are values too: an atom may hold
any symbol or none, and a quantifier may bind any symbol or none. An atom without a symbol stands
for a term that the text ended before.

Node count and height are defined by recursion; `size` and `depth` compute them with a list of
subtrees still to be visited, so that the nesting of a tree is not bounded by the call stack.
-/

namespace Arithmetization

/-- The tree of a formula or of part of one. -/
inductive Expression where
  | atom (symbol : Option Symbol)
  | successor (operand : Expression)
  | negation (operand : Expression)
  | binary (operator : Operator) (left right : Expression)
  | quantified (quantifier : Quantifier) (bound : Option Symbol) (body : Expression)
deriving DecidableEq, Repr

namespace Expression

/-- The atom for a term that is missing at the end of a text. -/
abbrev missing : Expression := .atom none

/-- The direct subtrees, from left to right. -/
def children : Expression → List Expression
  | atom _ => []
  | successor operand => [operand]
  | negation operand => [operand]
  | binary _ left right => [left, right]
  | quantified _ _ body => [body]

/-- Whether an operator stands at the root. -/
def isBinary : Expression → Bool
  | binary _ _ _ => true
  | _ => false

/-- The number of nodes. -/
def nodeCount : Expression → Nat
  | atom _ => 1
  | successor operand => operand.nodeCount + 1
  | negation operand => operand.nodeCount + 1
  | binary _ left right => left.nodeCount + right.nodeCount + 1
  | quantified _ _ body => body.nodeCount + 1

/-- The number of nodes on a longest path from the root to a leaf. -/
def height : Expression → Nat
  | atom _ => 1
  | successor operand => operand.height + 1
  | negation operand => operand.height + 1
  | binary _ left right => max left.height right.height + 1
  | quantified _ _ body => body.height + 1

/-- The symbols of a tree in written order, without parentheses. -/
def flatten : Expression → List Symbol
  | atom symbol => symbol.toList
  | successor operand => .successor :: operand.flatten
  | negation operand => .negation :: operand.flatten
  | binary op left right => left.flatten ++ .operator op :: right.flatten
  | quantified q bound body => .quantifier q :: (bound.toList ++ body.flatten)

/-- The number of nodes of a list of trees. -/
def totalNodes : List Expression → Nat
  | [] => 0
  | e :: rest => e.nodeCount + totalNodes rest

theorem totalNodes_append (first rest : List Expression) :
    totalNodes (first ++ rest) = totalNodes first + totalNodes rest := by
  induction first with
  | nil => simp [totalNodes]
  | cons e first ih => simp [totalNodes, ih, Nat.add_assoc]

theorem nodeCount_eq_children (e : Expression) : e.nodeCount = totalNodes e.children + 1 := by
  cases e <;> simp [nodeCount, children, totalNodes]

theorem nodeCount_pos (e : Expression) : 0 < e.nodeCount := by
  rw [nodeCount_eq_children]; omega

/-- Adds the nodes of all pending trees to a running total. -/
def countPending (total : Nat) : List Expression → Nat
  | [] => total
  | e :: pending => countPending (total + 1) (e.children ++ pending)
termination_by pending => totalNodes pending
decreasing_by
  rw [totalNodes_append, totalNodes, nodeCount_eq_children e]
  omega

/-- The number of nodes, found by visiting pending subtrees one at a time. -/
def size (e : Expression) : Nat := countPending 0 [e]

/-- Raises a running maximum to the deepest level that the pending trees reach. -/
def deepestPending (deepest : Nat) : List (Expression × Nat) → Nat
  | [] => deepest
  | (e, level) :: pending =>
    deepestPending (max deepest level) (e.children.map (·, level + 1) ++ pending)
termination_by pending => totalNodes (pending.map Prod.fst)
decreasing_by
  have children : (e.children.map (·, level + 1)).map Prod.fst = e.children := by
    simp [Function.comp_def]
  rw [List.map_append, children, totalNodes_append, List.map_cons, totalNodes,
    nodeCount_eq_children e]
  omega

/-- The height, found by visiting pending subtrees one at a time with their levels. -/
def depth (e : Expression) : Nat := deepestPending 0 [(e, 1)]

end Expression

end Arithmetization
