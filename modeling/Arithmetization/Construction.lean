import Arithmetization.Decimal
import Arithmetization.Expression

/-! # Construction from primitive recursive functions

Every node of an expression is one step that defines a function `f_k` from functions defined
before it. Steps are numbered from one in the order in which the nodes are left for good: operands
from left to right, then the node that combines them. The nodes are visited with a list of tasks,
so that the nesting of an expression is not bounded by the call stack.
-/

namespace Arithmetization

/-- What a step introduces. -/
inductive StepKind where
  /-- The zero function or the identity. -/
  | basic
  /-- A composition of functions that are already there. -/
  | composition
  /-- An unbounded search. -/
  | minimization
deriving DecidableEq, Repr

/-- The name of a kind of step. -/
def StepKind.name : StepKind → String
  | basic => "basic"
  | composition => "composition"
  | minimization => "minimization"

/-- A step that defines the function `f_index` from the functions of its inputs. -/
structure Step where
  index : Nat
  kind : StepKind
  label : String
  description : String
  inputs : List Nat
deriving DecidableEq, Repr

namespace Step

/-- The number of the first step. -/
def firstIndex : Nat := 1

/-- The name of the function that a step defines. -/
def functionName (index : Nat) : String := "f_" ++ Decimal.text index

/-- A symbol, or a question mark where there is none. -/
def symbolText (symbol : Option Symbol) : String := symbol.elim "?" Symbol.text

/-- The step of an atom: the zero function for `0`, the identity for everything else. -/
def ofAtom (index : Nat) : Option Symbol → Step
  | some .zero => ⟨index, .basic, functionName index ++ " = Z", "Zero function: Z(x) = 0", []⟩
  | symbol =>
    ⟨index, .basic, functionName index ++ " = I",
      "Identity/projection function for " ++ symbolText symbol ++ ": I(x) = x", []⟩

/-- The step of a successor of the given function. -/
def ofSuccessor (index input : Nat) : Step :=
  ⟨index, .composition, functionName index ++ " = S(" ++ functionName input ++ ")",
    "Composition: successor applied to " ++ functionName input, [input]⟩

/-- The step of a negation of the given function. -/
def ofNegation (index input : Nat) : Step :=
  ⟨index, .composition, functionName index ++ " = not(" ++ functionName input ++ ")",
    "Composition: logical NOT of " ++ functionName input, [input]⟩

/-- The step of an operator applied to two functions. -/
def ofBinary (index : Nat) (op : Operator) (left right : Nat) : Step :=
  ⟨index, .composition,
    functionName index ++ " = " ++ op.name ++ "(" ++ functionName left ++ ", " ++
      functionName right ++ ")",
    "Composition: " ++ op.description ++ " of " ++ functionName left ++ " and " ++
      functionName right,
    [left, right]⟩

/-- The step of a quantifier over the given function. -/
def ofQuantified (index : Nat) (q : Quantifier) (bound : Option Symbol) (input : Nat) : Step :=
  ⟨index, .minimization,
    functionName index ++ " = μ" ++ symbolText bound ++ "." ++ functionName input,
    "Minimization: " ++ q.adjective ++ " quantifier over " ++ symbolText bound ++ " applied to " ++
      functionName input,
    [input]⟩

/-- A step on one line. -/
def line (step : Step) : String := step.label ++ " (" ++ step.description ++ ")"

end Step

namespace Construction

/-- What is still to be done to construct an expression. -/
inductive Task where
  /-- Visit the children of a node and then combine them. -/
  | visit (node : Expression)
  /-- Combine the functions of the children of a node. -/
  | combine (node : Expression)

namespace Task

/-- The number of tasks that a task unfolds to, itself included. -/
def weight : Task → Nat
  | visit node => 2 * node.nodeCount
  | combine _ => 1

/-- The number of tasks that a list of tasks unfolds to. -/
def totalWeight : List Task → Nat
  | [] => 0
  | task :: rest => task.weight + totalWeight rest

theorem totalWeight_append (first rest : List Task) :
    totalWeight (first ++ rest) = totalWeight first + totalWeight rest := by
  induction first with
  | nil => simp [totalWeight]
  | cons task first ih => simp [totalWeight, ih, Nat.add_assoc]

/-- The tasks that a visit unfolds to. -/
def unfold (node : Expression) : List Task := node.children.map visit ++ [combine node]

theorem totalWeight_unfold (node : Expression) :
    totalWeight (unfold node) < (visit node).weight := by
  cases node <;> simp [unfold, totalWeight, weight, Expression.children, Expression.nodeCount] <;>
    omega

end Task

/-- Takes the most recent function; the first one stands in where there is none. -/
def takeFunction : List Nat → Nat × List Nat
  | [] => (Step.firstIndex, [])
  | index :: built => (index, built)

/-- The step that combines the most recent functions at a node, and the functions it leaves. -/
def combine (index : Nat) (built : List Nat) : Expression → Step × List Nat
  | .atom symbol => (Step.ofAtom index symbol, built)
  | .successor _ =>
    let (input, built) := takeFunction built
    (Step.ofSuccessor index input, built)
  | .negation _ =>
    let (input, built) := takeFunction built
    (Step.ofNegation index input, built)
  | .binary op _ _ =>
    let (right, built) := takeFunction built
    let (left, built) := takeFunction built
    (Step.ofBinary index op left right, built)
  | .quantified q bound _ =>
    let (input, built) := takeFunction built
    (Step.ofQuantified index q bound input, built)

/-- The steps of a list of tasks: `next` numbers the next step, `built` holds the functions that no
step has taken yet, the most recent first. -/
def run (next : Nat) (built : List Nat) : List Task → List Step
  | [] => []
  | .visit node :: tasks => run next built (Task.unfold node ++ tasks)
  | .combine node :: tasks =>
    let (step, built) := combine next built node
    step :: run (next + 1) (next :: built) tasks
termination_by tasks => Task.totalWeight tasks
decreasing_by
  · rw [Task.totalWeight_append, Task.totalWeight]
    have := Task.totalWeight_unfold node
    omega
  · simp [Task.totalWeight, Task.weight]

end Construction

/-- The steps that construct an expression. -/
def Expression.construct (e : Expression) : List Step :=
  Construction.run Step.firstIndex [] [.visit e]

end Arithmetization
