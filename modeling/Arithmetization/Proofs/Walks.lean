import Arithmetization.Proofs.Construction.Places
import Arithmetization.Proofs.Measures
import Mathlib.Data.Set.Card
import Mathlib.Logic.Function.Iterate

/-! # Walks over pending subtrees

A walk keeps the subtrees that are still to be visited on a stack. In one turn the entry that was
put on the stack last is taken off, and entries for all its children are put on together. Every
turn takes one node away from those that are pending, so a walk ends after as many turns as the
tree has nodes. The order of the children on the stack decides which nodes are visited early, and
not what is found in the end: the number of nodes, or the number of nodes on a longest way from the
root to a leaf.
-/

namespace Arithmetization.Expression

theorem totalNodes_perm {first second : List Expression} (perm : first.Perm second) :
    totalNodes first = totalNodes second := by
  induction perm with
  | nil => rfl
  | cons e perm ih => rw [totalNodes, totalNodes, ih]
  | swap e other rest =>
    simp only [totalNodes]
    omega
  | trans perm perm' ih ih' => exact ih.trans ih'

/-- An order in which the children of a node are visited. -/
structure VisitOrder where
  arrange : List Expression → List Expression
  perm (children : List Expression) : (arrange children).Perm children

/-- A walk over a stack whose entries stand for subtrees. -/
structure Walk (α : Type) where
  /-- The subtree that an entry stands for. -/
  tree : α → Expression
  /-- The entries for the children, in the order of their visits. -/
  below : α → List α
  /-- What was found, after the visit of an entry. -/
  record : Nat → α → Nat
  perm (entry : α) : ((below entry).map tree).Perm (tree entry).children

namespace Walk

/-- What was found so far, and the stack with the entry that was put on it last in front. -/
@[ext] structure State (α : Type) where
  found : Nat
  pending : List α

variable {α : Type} (walk : Walk α)

/-- The visit of the entry in front of the stack, if there is one. -/
def turn : State α → State α
  | ⟨found, []⟩ => ⟨found, []⟩
  | ⟨found, entry :: rest⟩ => ⟨walk.record found entry, walk.below entry ++ rest⟩

/-- The number of nodes that are still to be visited. -/
def remaining (state : State α) : Nat := totalNodes (state.pending.map walk.tree)

/-- The walk ends after a number of turns and not before, with the result as what was found. -/
def Returns (start : State α) (turns result : Nat) : Prop :=
  walk.turn^[turns] start = ⟨result, []⟩ ∧
    ∀ earlier < turns, (walk.turn^[earlier] start).pending ≠ []

/-- One turn visits one node. -/
theorem remaining_turn (state : State α) :
    walk.remaining (walk.turn state) = walk.remaining state - 1 := by
  obtain ⟨found, _ | ⟨entry, rest⟩⟩ := state
  · rfl
  · have children := totalNodes_perm (walk.perm entry)
    have node := nodeCount_eq_children (walk.tree entry)
    simp only [remaining, turn, List.map_append, List.map_cons, totalNodes_append, totalNodes]
    omega

theorem remaining_iterate (turns : Nat) (state : State α) :
    walk.remaining (walk.turn^[turns] state) = walk.remaining state - turns := by
  induction turns with
  | zero => rfl
  | succ turns ih => rw [Function.iterate_succ_apply', remaining_turn, ih, Nat.sub_sub]

theorem pending_eq_nil_iff {state : State α} :
    state.pending = [] ↔ walk.remaining state = 0 := by
  obtain ⟨found, _ | ⟨entry, rest⟩⟩ := state
  · simp [remaining, totalNodes]
  · have node := nodeCount_pos (walk.tree entry)
    simp only [remaining, List.map_cons, totalNodes, reduceCtorEq, false_iff]
    omega

/-- The stack is empty as soon as there were as many turns as nodes. -/
theorem pending_iterate_eq_nil_iff {turns : Nat} {state : State α} :
    (walk.turn^[turns] state).pending = [] ↔ walk.remaining state ≤ turns := by
  rw [walk.pending_eq_nil_iff, remaining_iterate, Nat.sub_eq_zero_iff_le]

/-- If no turn changes what a computation makes of the state, then the walk ends with what this
computation makes of its start. -/
theorem returns_of_turn {compute : Nat → List α → Nat}
    (done : ∀ found, compute found [] = found)
    (unchanged : ∀ state : State α,
      compute (walk.turn state).found (walk.turn state).pending =
        compute state.found state.pending) (start : State α) :
    walk.Returns start (walk.remaining start) (compute start.found start.pending) := by
  have ended : (walk.turn^[walk.remaining start] start).pending = [] :=
    walk.pending_iterate_eq_nil_iff.mpr (Nat.le_refl _)
  have found (turns : Nat) :
      compute (walk.turn^[turns] start).found (walk.turn^[turns] start).pending =
        compute start.found start.pending := by
    induction turns with
    | zero => rfl
    | succ turns ih => rw [Function.iterate_succ_apply', unchanged, ih]
  refine ⟨State.ext ?_ ended, fun earlier less empty => ?_⟩
  · rw [← found, ended, done]
  · have := walk.pending_iterate_eq_nil_iff.mp empty
    omega

end Walk

/-! ## Number of nodes and deepest level -/

namespace VisitOrder

variable (order : VisitOrder)

/-- The walk that counts the nodes. -/
def counting : Walk Expression where
  tree e := e
  below e := order.arrange e.children
  record total _ := total + 1
  perm e := by simpa using order.perm e.children

/-- The walk that finds the deepest level. -/
def levelling : Walk (Expression × Nat) where
  tree entry := entry.1
  below entry := (order.arrange entry.1.children).map (·, entry.2 + 1)
  record deepest entry := max deepest entry.2
  perm entry := by simpa [Function.comp_def] using order.perm entry.1.children

/-- In whatever order nodes are counted, those still to be counted are as many. -/
theorem countPending_turn (state : Walk.State Expression) :
    countPending (order.counting.turn state).found (order.counting.turn state).pending =
      countPending state.found state.pending := by
  obtain ⟨total, _ | ⟨e, pending⟩⟩ := state
  · rfl
  · have children := totalNodes_perm (order.perm e.children)
    have node := nodeCount_eq_children e
    simp only [countPending_eq, Walk.turn, counting, totalNodes_append, totalNodes]
    omega

/-- In whatever order levels are reached, the deepest one still to be reached is the same. -/
theorem deepestPending_turn (state : Walk.State (Expression × Nat)) :
    deepestPending (order.levelling.turn state).found (order.levelling.turn state).pending =
      deepestPending state.found state.pending := by
  obtain ⟨deepest, _ | ⟨⟨e, level⟩, pending⟩⟩ := state
  · rfl
  -- The bounds of a maximum do not depend on the order of the entries.
  · have bounds (bound : Nat) :
        deepestPending (max deepest level)
            ((order.arrange e.children).map (·, level + 1) ++ pending) ≤ bound ↔
          deepestPending deepest ((e, level) :: pending) ≤ bound := by
      rw [deepestPending_le_iff, deepestPending_le_iff, List.forall_mem_cons,
        List.forall_mem_append, List.forall_mem_map, height_add_le_iff, Nat.max_le]
      simp only [(order.perm e.children).mem_iff, and_assoc]
    exact Nat.le_antisymm ((bounds _).mpr (Nat.le_refl _)) ((bounds _).mp (Nat.le_refl _))

end VisitOrder

/-! ## Places of nodes and of leaves -/

/-- There are as many places of nodes as the recursion over the tree counts. -/
theorem ncard_places (e : Expression) :
    {place | ∃ node, e.nodeAt? place = some node}.ncard = e.nodeCount := by
  have listed : {place | ∃ node, e.nodeAt? place = some node} = ↑e.postorder.toFinset := by
    ext place
    simp [mem_postorder_iff]
  rw [listed, Set.ncard_coe_finset, List.toFinset_card_of_nodup (nodup_postorder e),
    length_postorder]

/-- Whether there is a node without children at a place. -/
def IsLeaf (e : Expression) (place : Place) : Prop :=
  ∃ leaf, e.nodeAt? place = some leaf ∧ leaf.children = []

theorem height_pos (e : Expression) : 0 < e.height :=
  (height_add_le_iff.mp (Nat.le_refl (e.height + 1))).1

theorem height_lt_of_child {e child : Expression} (member : child ∈ e.children) :
    child.height < e.height := by
  have below := (height_add_le_iff.mp (Nat.le_refl (e.height + 1))).2 child member
  omega

/-- A tree is a leaf or one level higher than one of its children. -/
theorem height_cases (e : Expression) :
    e.children = [] ∧ e.height = 1 ∨ ∃ child ∈ e.children, e.height = child.height + 1 := by
  cases e with
  | atom symbol => exact .inl ⟨rfl, rfl⟩
  | successor operand => exact .inr ⟨operand, List.mem_singleton_self _, rfl⟩
  | negation operand => exact .inr ⟨operand, List.mem_singleton_self _, rfl⟩
  | binary op left right =>
    rcases Nat.le_total right.height left.height with lower | lower
    · exact .inr ⟨left, by simp [children], by rw [height, Nat.max_eq_left lower]⟩
    · exact .inr ⟨right, by simp [children], by rw [height, Nat.max_eq_right lower]⟩
  | quantified q bound body => exact .inr ⟨body, List.mem_singleton_self _, rfl⟩

/-- No way from the root to a node has more nodes than the height. -/
theorem length_lt_height {e node : Expression} {place : Place}
    (found : e.nodeAt? place = some node) : place.length < e.height := by
  induction place generalizing e with
  | nil => exact height_pos e
  | cons k place ih =>
    obtain ⟨child, inside, found⟩ := nodeAt?_cons_eq_some_iff.mp found
    exact (Nat.succ_le_of_lt (ih found)).trans_lt (height_lt_of_child (List.mem_of_getElem? inside))

theorem exists_isLeaf_of_height (e : Expression) :
    ∃ place, e.IsLeaf place ∧ place.length + 1 = e.height := by
  induction e using induction_children with
  | step e ih =>
    rcases height_cases e with ⟨childless, one⟩ | ⟨child, member, next⟩
    · exact ⟨[], ⟨e, rfl, childless⟩, one.symm⟩
    · obtain ⟨place, ⟨leaf, found, childless⟩, length⟩ := ih child member
      obtain ⟨k, inside⟩ := List.mem_iff_getElem?.mp member
      have found' := nodeAt?_cons_eq_some_iff.mpr ⟨child, inside, found⟩
      refine ⟨k :: place, ⟨leaf, found', childless⟩, ?_⟩
      rw [List.length_cons, length, next]

/-- The height is the number of nodes on a longest way from the root to a leaf. -/
theorem isGreatest_height (e : Expression) :
    IsGreatest {length | ∃ place, e.IsLeaf place ∧ place.length + 1 = length} e.height := by
  refine ⟨exists_isLeaf_of_height e, ?_⟩
  rintro _ ⟨place, ⟨leaf, found, _⟩, rfl⟩
  exact length_lt_height found

/-- In whatever order the children of a node are visited, the two walks from the root end after as
many turns as there are nodes, with the size and with the depth. Both are what a recursion over the
tree finds: the number of its nodes, and the number of nodes on a longest way from the root to a
leaf. -/
theorem walks_find_size_and_depth (order : VisitOrder) (e : Expression) :
    order.counting.Returns ⟨0, [e]⟩ e.nodeCount e.size ∧
    order.levelling.Returns ⟨0, [(e, 1)]⟩ e.nodeCount e.depth ∧
    (e.size = e.nodeCount ∧
      {place | ∃ node, e.nodeAt? place = some node}.ncard = e.nodeCount) ∧
    e.depth = e.height ∧
    IsGreatest {length | ∃ place, e.IsLeaf place ∧ place.length + 1 = length} e.height := by
  have counted : order.counting.Returns ⟨0, [e]⟩ e.nodeCount e.size :=
    order.counting.returns_of_turn (fun _ => countPending.eq_1 _) order.countPending_turn _
  have levelled : order.levelling.Returns ⟨0, [(e, 1)]⟩ e.nodeCount e.depth :=
    order.levelling.returns_of_turn (fun _ => deepestPending.eq_1 _) order.deepestPending_turn _
  exact ⟨counted, levelled, ⟨size_eq_nodeCount e, ncard_places e⟩, depth_eq_height e,
    isGreatest_height e⟩

/-- Children put on the stack from left to right: the walks over `∀x Sx = 0`. -/
theorem walks_find_size_and_depth_equation :
    let equation := binary .equality (successor (atom (some (.letter .x)))) (atom (some .zero))
    let sentence := quantified .universal (some (.letter .x)) equation
    let order : VisitOrder := ⟨List.reverse, List.reverse_perm⟩
    order.counting.Returns ⟨0, [sentence]⟩ 5 5 ∧
      order.levelling.Returns ⟨0, [(sentence, 1)]⟩ 5 4 := by
  intro equation sentence order
  obtain ⟨counted, levelled, ⟨size, _⟩, depth, _⟩ := walks_find_size_and_depth order sentence
  rw [size] at counted
  rw [depth] at levelled
  exact ⟨counted, levelled⟩

end Arithmetization.Expression
