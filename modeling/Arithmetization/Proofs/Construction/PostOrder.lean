import Arithmetization.Proofs.Construction.Places
import Arithmetization.Proofs.Construction.Table
import Arithmetization.Proofs.Measures
import Mathlib.Data.List.Nodup
import Mathlib.Data.List.Perm.Basic

/-! # Steps are built in post-order

The steps of an expression are found by working through a list of tasks, with the functions that no
step has taken yet on a stack. Visiting a node adds exactly one function to the stack, whatever is
already on it and whatever comes after. So the steps are those of the recursive construction, in
which each node takes the functions of its children.
-/

namespace Arithmetization

/-! ## The recursive construction -/

theorem Step.ofNode_congr {index : Nat} {node : Expression} {input input' : Nat → Nat}
    (same : ∀ k < node.children.length, input k = input' k) :
    ofNode index node input = ofNode index node input' := by
  cases node <;> simp_all [ofNode, Expression.children]

namespace Expression

/-- The steps of the nodes of an expression, numbered from `next` on: those of the children come
before the step that combines them. -/
def stepsFrom (next : Nat) : Expression → List Step
  | atom symbol => [.ofAtom next symbol]
  | successor operand =>
    operand.stepsFrom next ++
      [.ofSuccessor (next + operand.nodeCount) (next + operand.nodeCount - 1)]
  | negation operand =>
    operand.stepsFrom next ++
      [.ofNegation (next + operand.nodeCount) (next + operand.nodeCount - 1)]
  | binary op left right =>
    left.stepsFrom next ++ right.stepsFrom (next + left.nodeCount) ++
      [.ofBinary (next + left.nodeCount + right.nodeCount) op (next + left.nodeCount - 1)
        (next + left.nodeCount + right.nodeCount - 1)]
  | quantified q bound body =>
    body.stepsFrom next ++
      [.ofQuantified (next + body.nodeCount) q bound (next + body.nodeCount - 1)]

end Expression

namespace Construction

/-- Working off the visit of a node emits its steps and leaves its function on the stack. -/
theorem run_visit (e : Expression) (next : Nat) (built : List Nat) (tasks : List Task) :
    run next built (.visit e :: tasks) =
      e.stepsFrom next ++
        run (next + e.nodeCount) ((next + e.nodeCount - 1) :: built) tasks := by
  induction e generalizing next built tasks with
  | atom symbol =>
    simp [run, Task.unfold, Expression.children, combine, Expression.stepsFrom,
      Expression.nodeCount]
  | successor operand ih =>
    simp [run, Task.unfold, Expression.children, ih, combine, takeFunction, Expression.stepsFrom,
      Expression.nodeCount, ← Nat.add_assoc]
  | negation operand ih =>
    simp [run, Task.unfold, Expression.children, ih, combine, takeFunction, Expression.stepsFrom,
      Expression.nodeCount, ← Nat.add_assoc]
  | binary op left right ihLeft ihRight =>
    simp [run, Task.unfold, Expression.children, ihLeft, ihRight, combine, takeFunction,
      Expression.stepsFrom, Expression.nodeCount, ← Nat.add_assoc]
  | quantified q bound body ih =>
    simp [run, Task.unfold, Expression.children, ih, combine, takeFunction, Expression.stepsFrom,
      Expression.nodeCount, ← Nat.add_assoc]

end Construction

namespace Expression

theorem construct_eq_stepsFrom (e : Expression) : e.construct = e.stepsFrom 1 := by
  rw [construct, Construction.run_visit, Construction.run, List.append_nil]
  rfl

/-! ## Steps by place -/

/-- The step of the node at a place: its inputs are the numbers of the places right below. -/
def stepAt (next : Nat) (e : Expression) (place : Place) : Step :=
  .ofNode (next + e.postorder.idxOf place) ((e.nodeAt? place).getD e)
    fun k => next + e.postorder.idxOf (place ++ [k])

theorem stepAt_eq {e node : Expression} {next : Nat} {place : Place}
    (found : e.nodeAt? place = some node) :
    e.stepAt next place = .ofNode (next + e.postorder.idxOf place) node
      fun k => next + e.postorder.idxOf (place ++ [k]) := by
  rw [stepAt, found, Option.getD_some]

theorem nodeAt?_concat {e node : Expression} {place : Place} (k : Nat)
    (found : e.nodeAt? place = some node) : e.nodeAt? (place ++ [k]) = node.children[k]? := by
  induction place generalizing e with
  | nil =>
    obtain rfl := Option.some.inj found
    cases found : e.children[k]? <;> simp [nodeAt?, found]
  | cons i place ih =>
    obtain ⟨child, at', found⟩ := nodeAt?_cons_eq_some_iff.mp found
    rw [List.cons_append, nodeAt?, at', Option.bind_some, ih found]

/-- A step below a child is a step of the child alone, with the numbers after those of the children
before it. -/
theorem stepAt_child {e child : Expression} {next k : Nat} {place : Place}
    (found : e.children[k]? = some child) (member : place ∈ child.postorder) :
    e.stepAt next (k :: place) =
      child.stepAt (next + totalNodes (e.children.take k)) place := by
  obtain ⟨node, reached⟩ := mem_postorder_iff.mp member
  have reached' : e.nodeAt? (k :: place) = some node :=
    nodeAt?_cons_eq_some_iff.mpr ⟨child, found, reached⟩
  rw [stepAt_eq reached, stepAt_eq reached', idxOf_child found member, Nat.add_assoc]
  apply Step.ofNode_congr
  intro j inside
  have member' : place ++ [j] ∈ child.postorder := by
    rw [mem_postorder_iff, nodeAt?_concat j reached]
    exact ⟨_, List.getElem?_eq_getElem inside⟩
  rw [List.cons_append, idxOf_child found member', Nat.add_assoc]

theorem totalNodes_take_succ {trees : List Expression} {k : Nat} {e : Expression}
    (found : trees[k]? = some e) :
    totalNodes (trees.take (k + 1)) = totalNodes (trees.take k) + e.nodeCount := by
  rw [List.take_add_one, found, totalNodes_append, Option.toList_some, totalNodes, totalNodes,
    Nat.add_zero]

theorem stepAt_root (next : Nat) (e : Expression) :
    e.stepAt next [] = .ofNode (next + totalNodes e.children) e
      fun k => next + totalNodes (e.children.take (k + 1)) - 1 := by
  rw [stepAt_eq rfl, idxOf_root]
  apply Step.ofNode_congr
  intro k inside
  have found := List.getElem?_eq_getElem inside
  have member : [] ∈ (e.children[k]).postorder := mem_postorder_iff.mpr ⟨_, rfl⟩
  rw [List.nil_append, idxOf_child found member, idxOf_root, totalNodes_take_succ found,
    nodeCount_eq_children]
  omega

theorem map_stepAt_child {e child : Expression} {k : Nat} (next : Nat)
    (found : e.children[k]? = some child) :
    (child.postorder.map (k :: ·)).map (e.stepAt next) =
      child.postorder.map (child.stepAt (next + totalNodes (e.children.take k))) := by
  rw [List.map_map]
  apply List.map_congr_left
  intro place member
  exact stepAt_child found member

/-- The recursive construction lists the steps of the places in post-order. -/
theorem stepsFrom_eq_map (next : Nat) (e : Expression) :
    e.stepsFrom next = e.postorder.map (e.stepAt next) := by
  induction e generalizing next with
  | atom symbol => rfl
  | successor operand ih =>
    have below := map_stepAt_child (e := .successor operand) (k := 0) next rfl
    simp only [stepsFrom, ih, postorder, placesFrom, List.append_nil, List.map_append, below,
      List.map_singleton, stepAt_root]
    rfl
  | negation operand ih =>
    have below := map_stepAt_child (e := .negation operand) (k := 0) next rfl
    simp only [stepsFrom, ih, postorder, placesFrom, List.append_nil, List.map_append, below,
      List.map_singleton, stepAt_root]
    rfl
  | binary op left right ihLeft ihRight =>
    have belowLeft := map_stepAt_child (e := .binary op left right) (k := 0) next rfl
    have belowRight := map_stepAt_child (e := .binary op left right) (k := 1) next rfl
    simp only [stepsFrom, ihLeft, ihRight, postorder, placesFrom, List.append_nil, List.map_append,
      belowLeft, belowRight, List.map_singleton, stepAt_root, Nat.add_assoc]
    rfl
  | quantified q bound body ih =>
    have below := map_stepAt_child (e := .quantified q bound body) (k := 0) next rfl
    simp only [stepsFrom, ih, postorder, placesFrom, List.append_nil, List.map_append, below,
      List.map_singleton, stepAt_root]
    rfl

/-! ## Inputs -/

/-- Every step takes functions that were defined before it. -/
theorem input_lt_index (next : Nat) (e : Expression) :
    ∀ step ∈ e.stepsFrom next, ∀ input ∈ step.inputs, input < step.index := by
  intro step member input taken
  rw [stepsFrom_eq_map] at member
  obtain ⟨place, at', rfl⟩ := List.mem_map.mp member
  obtain ⟨node, found⟩ := mem_postorder_iff.mp at'
  rw [stepAt_eq found] at taken ⊢
  rw [Step.inputs_ofNode] at taken
  obtain ⟨k, inside, rfl⟩ := List.mem_map.mp taken
  have child : place ++ [k] ∈ e.postorder := by
    rw [mem_postorder_iff, nodeAt?_concat k found]
    exact ⟨_, List.getElem?_eq_getElem (List.mem_range.mp inside)⟩
  rw [Step.index_ofNode]
  exact Nat.add_lt_add_left (idxOf_lt_of_precedes child at' (precedes_of_concat place k)) next

/-- The function of a node joins those that were taken below it. -/
theorem concat_perm_range' {taken : List Nat} {next : Nat} (e : Expression)
    (below : taken.Perm (List.range' next (e.nodeCount - 1))) :
    (taken ++ [next + e.nodeCount - 1]).Perm (List.range' next e.nodeCount) := by
  obtain ⟨count, same⟩ := Nat.exists_eq_succ_of_ne_zero (Nat.ne_of_gt e.nodeCount_pos)
  rw [same, Nat.succ_sub_one] at below
  rw [same, List.range'_concat, Nat.one_mul]
  exact below.append_right _

/-- The functions of all nodes but the root are taken, each of them once. -/
theorem inputs_perm_range' (next : Nat) (e : Expression) :
    ((e.stepsFrom next).flatMap Step.inputs).Perm (List.range' next (e.nodeCount - 1)) := by
  induction e generalizing next with
  | atom symbol => simp [stepsFrom, nodeCount]
  | successor operand ih =>
    rw [stepsFrom, List.flatMap_append]
    exact concat_perm_range' operand (ih next)
  | negation operand ih =>
    rw [stepsFrom, List.flatMap_append]
    exact concat_perm_range' operand (ih next)
  | binary op left right ihLeft ihRight =>
    have joinedLeft := concat_perm_range' left (ihLeft next)
    have joinedRight := concat_perm_range' right (ihRight (next + left.nodeCount))
    have joined := joinedLeft.append joinedRight
    rw [List.range'_append_1, List.append_assoc] at joined
    rw [stepsFrom, List.flatMap_append, List.flatMap_append, List.append_assoc]
    -- The function of the left operand moves past those that were taken below the right one.
    exact (List.perm_middle.append_left _).trans joined
  | quantified q bound body ih =>
    rw [stepsFrom, List.flatMap_append]
    exact concat_perm_range' body (ih next)

end Expression

namespace Construction

/-- The states that the construction of an expression goes through: the number of the next step, the
functions that no step has taken yet, and the tasks. -/
inductive Reached (e : Expression) : Nat → List Nat → List Task → Prop where
  | start : Reached e Step.firstIndex [] [.visit e]
  | visit {next : Nat} {built : List Nat} {node : Expression} {tasks : List Task} :
    Reached e next built (.visit node :: tasks) →
      Reached e next built (Task.unfold node ++ tasks)
  | combine {next : Nat} {built : List Nat} {node : Expression} {tasks : List Task} :
    Reached e next built (.combine node :: tasks) →
      Reached e (next + 1) (next :: (combine next built node).2) tasks

/-- Whether some tasks find all the functions that they take, given how many there are. -/
def Supplied : Nat → List Task → Prop
  | _, [] => True
  | height, .visit _ :: tasks => Supplied (height + 1) tasks
  | height, .combine node :: tasks =>
    node.children.length ≤ height ∧ Supplied (height - node.children.length + 1) tasks

theorem supplied_visits {height : Nat} {trees : List Expression} {tasks : List Task} :
    Supplied height (trees.map .visit ++ tasks) ↔ Supplied (height + trees.length) tasks := by
  induction trees generalizing height with
  | nil => rfl
  | cons e trees ih =>
    rw [List.map_cons, List.cons_append, Supplied, ih, List.length_cons, Nat.add_right_comm,
      Nat.add_assoc]

/-- A visit adds one function, like the tasks that it unfolds to. -/
theorem supplied_unfold {height : Nat} {node : Expression} {tasks : List Task} :
    Supplied height (Task.unfold node ++ tasks) ↔ Supplied (height + 1) tasks := by
  rw [Task.unfold, List.append_assoc, supplied_visits, List.singleton_append, Supplied,
    Nat.add_sub_cancel]
  exact and_iff_right (Nat.le_add_left _ _)

/-- Combining a node takes as many functions as the node has children. -/
theorem length_combine (next : Nat) (built : List Nat) (node : Expression) :
    (combine next built node).2.length = built.length - node.children.length := by
  have taken (functions : List Nat) :
      (takeFunction functions).2.length = functions.length - 1 := by
    cases functions <;> rfl
  cases node with
  | atom symbol => rfl
  | binary op left right =>
    simp only [combine, taken]
    rfl
  | _ => exact taken built

theorem Reached.supplied {e : Expression} {next : Nat} {built : List Nat} {tasks : List Task}
    (reached : Reached e next built tasks) : Supplied built.length tasks := by
  induction reached with
  | start => trivial
  | visit _ ih => exact supplied_unfold.mpr ih
  | combine _ ih =>
    rw [List.length_cons, length_combine]
    exact ih.2

/-- What a reached state still emits is the rest of the construction. -/
theorem Reached.exists_append {e : Expression} {next : Nat} {built : List Nat} {tasks : List Task}
    (reached : Reached e next built tasks) :
    ∃ emitted, e.construct = emitted ++ run next built tasks := by
  induction reached with
  | start => exact ⟨[], rfl⟩
  | visit _ ih =>
    obtain ⟨emitted, same⟩ := ih
    exact ⟨emitted, by rw [same, run]⟩
  | combine _ ih =>
    obtain ⟨emitted, same⟩ := ih
    exact ⟨emitted ++ [_], by rw [same, run, List.append_assoc]; rfl⟩

end Construction

namespace Expression

/-- The steps belong to the nodes in post-order, and take the functions of the children. -/
structure PostOrderSteps (e : Expression) (steps : List Step) : Prop where
  /-- Every node has one step. -/
  length : steps.length = e.nodeCount
  /-- The step at a position has the kind, the label and the description that the table has for the
  node at this position of the post-order, and its inputs are the numbers of the children in their
  order. -/
  step : ∀ i place, e.postorder[i]? = some place → ∃ node step,
    e.nodeAt? place = some node ∧ steps[i]? = some step ∧
      step.IsFor (i + 1) node step.inputs ∧ step.index = i + 1 ∧
      step.inputs =
        (List.range node.children.length).map fun k => e.postorder.idxOf (place ++ [k]) + 1
  input_lt : ∀ step ∈ steps, ∀ input ∈ step.inputs, input < step.index
  /-- Every number but the last is an input of exactly one step, and once. -/
  inputs : (steps.flatMap Step.inputs).Perm (List.range' 1 (e.nodeCount - 1))
  /-- The last step is the one of the root. -/
  last : ∃ step, steps.getLast? = some step ∧ step.IsFor e.nodeCount e step.inputs ∧
    step.inputs = (List.range e.children.length).map fun k => e.postorder.idxOf [k] + 1

theorem postOrderSteps_construct (e : Expression) : e.PostOrderSteps e.construct := by
  have listed : e.construct = e.postorder.map (e.stepAt 1) :=
    (construct_eq_stepsFrom e).trans (stepsFrom_eq_map 1 e)
  constructor
  case length => exact length_construct e
  case input_lt =>
    rw [construct_eq_stepsFrom]
    exact input_lt_index 1 e
  case inputs =>
    rw [construct_eq_stepsFrom]
    exact inputs_perm_range' 1 e
  case step =>
    intro i place at'
    obtain ⟨node, found⟩ := mem_postorder_iff.mp (List.mem_of_getElem? at')
    have position : e.postorder.idxOf place = i := by
      obtain ⟨inside, rfl⟩ := List.getElem?_eq_some_iff.mp at'
      exact (nodup_postorder e).idxOf_getElem i inside
    have step : e.stepAt 1 place = _ := stepAt_eq found
    simp only [position, Nat.add_comm 1] at step
    refine ⟨node, e.stepAt 1 place, found, ?_, ?_, ?_, ?_⟩
    · rw [listed, List.getElem?_map, at', Option.map_some]
    · rw [step]
      exact Step.isFor_ofNode _ _ _
    · rw [step, Step.index_ofNode]
    · rw [step, Step.inputs_ofNode]
  case last =>
    have step : e.stepAt 1 [] = _ := stepAt_eq rfl
    rw [idxOf_root, Nat.add_comm, ← nodeCount_eq_children] at step
    simp only [List.nil_append, Nat.add_comm 1] at step
    have root : e.postorder.getLast? = some [] := by rw [postorder_eq, List.getLast?_concat]
    refine ⟨_, ?_, Step.isFor_ofNode _ _ _, Step.inputs_ofNode _ _ _⟩
    rw [listed, List.getLast?_map, root, Option.map_some, step]

/-- The steps of an expression are those of the recursive construction, node by node in post-order,
and no step is combined from a function that is not there. -/
theorem construct_in_postorder (e : Expression) :
    (∀ place, place ∈ e.postorder ↔ ∃ node, e.nodeAt? place = some node) ∧
    e.postorder.Pairwise Precedes ∧
    e.construct = e.stepsFrom 1 ∧ e.PostOrderSteps e.construct ∧
    ∀ next built tasks, Construction.Reached e next built tasks →
      (∃ emitted, e.construct = emitted ++ Construction.run next built tasks) ∧
      ∀ node rest, tasks = .combine node :: rest → node.children.length ≤ built.length := by
  refine ⟨fun _ => mem_postorder_iff, pairwise_postorder e, construct_eq_stepsFrom e,
    postOrderSteps_construct e, ?_⟩
  intro next built tasks reached
  refine ⟨reached.exists_append, ?_⟩
  rintro node rest rfl
  exact reached.supplied.1

end Expression

end Arithmetization
