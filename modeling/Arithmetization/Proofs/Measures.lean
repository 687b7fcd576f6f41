import Arithmetization.Construction

/-! # Size, depth and the number of steps

The size and the depth of an expression are found by visiting pending subtrees, and its steps by
working through pending tasks. What is pending has a measure of its own, and a visit replaces one
entry by others of the same measure: pending trees add their nodes to the size and bound the depth
by the levels that they reach, and a pending task adds one step for every node that it will leave.
-/

namespace Arithmetization

namespace Expression

/-- Visiting pending trees counts all their nodes. -/
theorem countPending_eq (total : Nat) (pending : List Expression) :
    countPending total pending = total + totalNodes pending := by
  induction total, pending using countPending.induct with
  | case1 total => rw [countPending, totalNodes, Nat.add_zero]
  | case2 total e pending ih =>
    rw [countPending, ih, totalNodes_append, totalNodes, nodeCount_eq_children e]
    omega

/-- The size is the number of nodes. -/
theorem size_eq_nodeCount (e : Expression) : e.size = e.nodeCount := by
  rw [size, countPending_eq, totalNodes, totalNodes]
  omega

/-- A tree stays within a bound on levels exactly if its root and the trees below it do. -/
theorem height_add_le_iff {e : Expression} {level bound : Nat} :
    e.height + level ≤ bound + 1 ↔
      level ≤ bound ∧ ∀ child ∈ e.children, child.height + (level + 1) ≤ bound + 1 := by
  cases e <;> simp [height, children] <;> omega

/-- Visiting pending trees finds the least bound that all of them stay within. -/
theorem deepestPending_le_iff {deepest bound : Nat} {pending : List (Expression × Nat)} :
    deepestPending deepest pending ≤ bound ↔
      deepest ≤ bound ∧ ∀ entry ∈ pending, entry.1.height + entry.2 ≤ bound + 1 := by
  induction deepest, pending using deepestPending.induct with
  | case1 deepest => simp [deepestPending]
  | case2 deepest e level pending ih =>
    rw [deepestPending, ih, List.forall_mem_cons, List.forall_mem_append, List.forall_mem_map,
      height_add_le_iff, Nat.max_le]
    simp only [and_assoc]

/-- The depth is the height. -/
theorem depth_eq_height (e : Expression) : e.depth = e.height := by
  have bounds (bound : Nat) : e.depth ≤ bound ↔ e.height ≤ bound := by
    rw [depth, deepestPending_le_iff]
    simp
  exact Nat.le_antisymm ((bounds _).mpr (Nat.le_refl _)) ((bounds _).mp (Nat.le_refl _))

/-- A longest path is no longer than the whole tree. -/
theorem height_le_nodeCount (e : Expression) : e.height ≤ e.nodeCount := by
  induction e with
  | atom symbol => exact Nat.le_refl 1
  | successor operand ih => exact Nat.succ_le_succ ih
  | negation operand ih => exact Nat.succ_le_succ ih
  | binary op left right ihLeft ihRight =>
    simp only [height, nodeCount]
    omega
  | quantified q bound body ih => exact Nat.succ_le_succ ih

end Expression

namespace Construction

/-- The number of nodes that a task leaves, each with one step. -/
def Task.stepCount : Task → Nat
  | visit node => node.nodeCount
  | combine _ => 1

/-- The number of steps of a list of tasks. -/
def Task.totalSteps : List Task → Nat
  | [] => 0
  | task :: rest => task.stepCount + totalSteps rest

theorem Task.totalSteps_append (first rest : List Task) :
    totalSteps (first ++ rest) = totalSteps first + totalSteps rest := by
  induction first with
  | nil => exact (Nat.zero_add _).symm
  | cons task first ih => rw [List.cons_append, totalSteps, totalSteps, ih, Nat.add_assoc]

theorem Task.totalSteps_visit (trees : List Expression) :
    totalSteps (trees.map visit) = Expression.totalNodes trees := by
  induction trees with
  | nil => rfl
  | cons e trees ih =>
    rw [List.map_cons, totalSteps, ih]
    rfl

/-- Visiting a node takes as many steps as visiting its children and combining them. -/
theorem Task.totalSteps_unfold (node : Expression) :
    totalSteps (unfold node) = node.nodeCount := by
  rw [unfold, totalSteps_append, totalSteps_visit, Expression.nodeCount_eq_children]
  rfl

theorem length_run (next : Nat) (built : List Nat) (tasks : List Task) :
    (run next built tasks).length = Task.totalSteps tasks := by
  induction next, built, tasks using run.induct with
  | case1 next built => simp [run, Task.totalSteps]
  | case2 next built node tasks ih =>
    rw [run, ih, Task.totalSteps_append, Task.totalSteps_unfold]
    rfl
  | case3 next built node tasks step rest combined ih =>
    rw [run, combined, Task.totalSteps, List.length_cons, ih]
    exact Nat.add_comm _ 1

end Construction

/-- Every node of an expression is one step of its construction. -/
theorem Expression.length_construct (e : Expression) : e.construct.length = e.nodeCount := by
  rw [construct, Construction.length_run]
  exact Nat.add_zero _

end Arithmetization
