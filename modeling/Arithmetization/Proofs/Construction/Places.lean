import Arithmetization.Expression
import Mathlib.Data.List.Basic

/-! # Places of the nodes of an expression

Equal subtrees of an expression are still different nodes. A node is told from the others by its
place: the numbers of the children on the way to it from the root. In post-order, the places below
the children come first, from left to right, and the root comes last.
-/

namespace Arithmetization.Expression

/-- The numbers of the children on the way from the root to a node. -/
abbrev Place := List Nat

/-- The node at a place, if there is one. -/
def nodeAt? : Expression → Place → Option Expression
  | e, [] => some e
  | e, k :: place => e.children[k]?.bind (nodeAt? · place)

/-- The places below children that are numbered from `k` on, given the places inside of each. -/
def placesFrom (k : Nat) : List (List Place) → List Place
  | [] => []
  | order :: orders => order.map (k :: ·) ++ placesFrom (k + 1) orders

/-- The places of the nodes in post-order. -/
def postorder : Expression → List Place
  | atom _ => placesFrom 0 [] ++ [[]]
  | successor operand => placesFrom 0 [operand.postorder] ++ [[]]
  | negation operand => placesFrom 0 [operand.postorder] ++ [[]]
  | binary _ left right => placesFrom 0 [left.postorder, right.postorder] ++ [[]]
  | quantified _ _ body => placesFrom 0 [body.postorder] ++ [[]]

/-- Whether a place comes before another one in post-order: it is below the other one, or leaves the
common way to the left of it. -/
def Precedes : Place → Place → Prop
  | [], _ => False
  | _ :: _, [] => True
  | i :: place, j :: other => i < j ∨ i = j ∧ Precedes place other

theorem not_precedes_of_precedes {place other : Place} (before : Precedes place other) :
    ¬ Precedes other place := by
  induction place generalizing other with
  | nil => exact before.elim
  | cons i place ih =>
    cases other with
    | nil => exact id
    | cons j other =>
      rintro (less' | ⟨rfl, before'⟩) <;> rcases before with less | ⟨same, before⟩
      · omega
      · omega
      · exact Nat.lt_irrefl _ less
      · exact ih before before'

/-- What is right below a place comes before it. -/
theorem precedes_of_concat (place : Place) (k : Nat) : Precedes (place ++ [k]) place := by
  induction place with
  | nil => trivial
  | cons i place ih => exact .inr ⟨rfl, ih⟩

theorem postorder_eq (e : Expression) :
    e.postorder = placesFrom 0 (e.children.map postorder) ++ [[]] := by
  cases e <;> rfl

/-- What holds of an expression as soon as it holds of its children holds of every expression. -/
theorem induction_children {motive : Expression → Prop}
    (step : ∀ e : Expression, (∀ child ∈ e.children, motive child) → motive e) (e : Expression) :
    motive e := by
  induction e with
  | atom symbol => exact step _ (by simp [children])
  | successor operand ih => exact step _ (by simpa [children] using ih)
  | negation operand ih => exact step _ (by simpa [children] using ih)
  | binary op left right ihLeft ihRight =>
    exact step _ (by simpa [children] using ⟨ihLeft, ihRight⟩)
  | quantified q bound body ih => exact step _ (by simpa [children] using ih)

/-! ## Places below some children -/

section

variable {orders : List (List Place)} {k : Nat}

theorem mem_placesFrom_iff {place : Place} :
    place ∈ placesFrom k orders ↔
      ∃ i order inner, orders[i]? = some order ∧ inner ∈ order ∧ place = (k + i) :: inner := by
  induction orders generalizing k with
  | nil => simp [placesFrom]
  | cons order orders ih =>
    rw [placesFrom, List.mem_append, ih, List.mem_map]
    constructor
    · rintro (⟨inner, member, rfl⟩ | ⟨i, order', inner, found, member, rfl⟩)
      · exact ⟨0, order, inner, rfl, member, rfl⟩
      · exact ⟨i + 1, order', inner, found, member, by rw [Nat.add_right_comm, Nat.add_assoc]⟩
    · rintro ⟨_ | i, order', inner, found, member, rfl⟩
      · obtain rfl := Option.some.inj found
        exact .inl ⟨inner, member, rfl⟩
      · exact .inr ⟨i, order', inner, found, member, by rw [Nat.add_right_comm, Nat.add_assoc]⟩

theorem nil_notMem_placesFrom : [] ∉ placesFrom k orders := by
  rw [mem_placesFrom_iff]
  rintro ⟨i, order, inner, _, _, impossible⟩
  contradiction

theorem pairwise_placesFrom (inside : ∀ order ∈ orders, order.Pairwise Precedes) :
    (placesFrom k orders).Pairwise Precedes := by
  induction orders generalizing k with
  | nil => exact .nil
  | cons order orders ih =>
    obtain ⟨first, others⟩ := List.forall_mem_cons.mp inside
    rw [placesFrom, List.pairwise_append, List.pairwise_map]
    refine ⟨first.imp fun before => .inr ⟨rfl, before⟩, ih others, ?_⟩
    intro place member other member'
    obtain ⟨inner, _, rfl⟩ := List.mem_map.mp member
    obtain ⟨i, _, _, _, _, rfl⟩ := mem_placesFrom_iff.mp member'
    exact .inl (by omega)

theorem length_placesFrom : (placesFrom k orders).length = orders.flatten.length := by
  induction orders generalizing k with
  | nil => rfl
  | cons order orders ih =>
    rw [placesFrom, List.length_append, List.length_map, ih, List.flatten_cons, List.length_append]

theorem idxOf_map_cons {order : List Place} {inner : Place} :
    (order.map (k :: ·)).idxOf (k :: inner) = order.idxOf inner := by
  induction order with
  | nil => rfl
  | cons place order ih => simp [List.idxOf_cons, ih]

/-- A place below a child follows all places below the children before it. -/
theorem idxOf_placesFrom {i : Nat} {order : List Place} {inner : Place}
    (found : orders[i]? = some order) (member : inner ∈ order) :
    (placesFrom k orders).idxOf ((k + i) :: inner) =
      (orders.take i).flatten.length + order.idxOf inner := by
  induction orders generalizing k i with
  | nil => contradiction
  | cons first orders ih =>
    cases i with
    | zero =>
      obtain rfl := Option.some.inj found
      have member' : k :: inner ∈ first.map (k :: ·) := List.mem_map.mpr ⟨inner, member, rfl⟩
      rw [placesFrom, Nat.add_zero, List.idxOf_append_of_mem member', idxOf_map_cons]
      exact (Nat.zero_add _).symm
    | succ i =>
      have other : (k + (i + 1)) :: inner ∉ first.map (k :: ·) := by
        rw [List.mem_map]
        rintro ⟨place, _, same⟩
        have := (List.cons.inj same).1
        omega
      have rest := ih (k := k + 1) (i := i) found
      rw [placesFrom, List.idxOf_append_of_notMem other, List.length_map, ← Nat.add_assoc,
        Nat.add_right_comm, rest, List.take_succ_cons, List.flatten_cons, List.length_append,
        Nat.add_assoc]

end

/-! ## The post-order -/

theorem nodeAt?_cons_eq_some_iff {e node : Expression} {k : Nat} {place : Place} :
    e.nodeAt? (k :: place) = some node ↔
      ∃ child, e.children[k]? = some child ∧ child.nodeAt? place = some node :=
  Option.bind_eq_some_iff

/-- The post-order consists of the places of the nodes. -/
theorem mem_postorder_iff {e : Expression} {place : Place} :
    place ∈ e.postorder ↔ ∃ node, e.nodeAt? place = some node := by
  induction place generalizing e with
  | nil => simp [postorder_eq, nodeAt?]
  | cons k place ih =>
    have below : k :: place ∈ e.postorder ↔
        k :: place ∈ placesFrom 0 (e.children.map postorder) := by
      simp [postorder_eq]
    simp only [below, mem_placesFrom_iff, nodeAt?_cons_eq_some_iff, List.getElem?_map,
      Option.map_eq_some_iff, List.cons.injEq, Nat.zero_add]
    constructor
    · rintro ⟨_, _, _, ⟨child, found, rfl⟩, member, rfl, rfl⟩
      obtain ⟨node, reached⟩ := ih.mp member
      exact ⟨node, child, found, reached⟩
    · rintro ⟨node, child, found, reached⟩
      exact ⟨k, _, place, ⟨child, found, rfl⟩, ih.mpr ⟨node, reached⟩, rfl, rfl⟩

theorem pairwise_postorder (e : Expression) : e.postorder.Pairwise Precedes := by
  induction e using induction_children with
  | step e ih =>
    rw [postorder_eq, List.pairwise_append]
    refine ⟨pairwise_placesFrom (List.forall_mem_map.mpr ih), List.pairwise_singleton _ _, ?_⟩
    intro place member root member'
    obtain rfl := List.mem_singleton.mp member'
    obtain ⟨i, _, _, _, _, rfl⟩ := mem_placesFrom_iff.mp member
    exact trivial

/-- No place is repeated. -/
theorem nodup_postorder (e : Expression) : e.postorder.Nodup := by
  apply (pairwise_postorder e).imp
  intro place other before
  rintro rfl
  exact not_precedes_of_precedes before before

/-- The positions in the post-order are in the order of the places. -/
theorem idxOf_lt_of_precedes {e : Expression} {place other : Place} (member : place ∈ e.postorder)
    (member' : other ∈ e.postorder) (before : Precedes place other) :
    e.postorder.idxOf place < e.postorder.idxOf other := by
  have inside := List.idxOf_lt_length_of_mem member
  have inside' := List.idxOf_lt_length_of_mem member'
  by_contra later
  rcases Nat.lt_or_eq_of_le (Nat.not_lt.mp later) with less | same
  · have after := List.pairwise_iff_getElem.mp (pairwise_postorder e) _ _ inside' inside less
    rw [List.getElem_idxOf, List.getElem_idxOf] at after
    exact not_precedes_of_precedes before after
  · obtain rfl := (List.idxOf_inj member').mp same
    exact not_precedes_of_precedes before before

/-- There are as many places below some children as the children have nodes together. -/
theorem length_flatten_postorder {trees : List Expression}
    (lengths : ∀ e ∈ trees, e.postorder.length = e.nodeCount) :
    (trees.map postorder).flatten.length = totalNodes trees := by
  induction trees with
  | nil => rfl
  | cons e trees ih =>
    obtain ⟨first, others⟩ := List.forall_mem_cons.mp lengths
    rw [List.map_cons, List.flatten_cons, List.length_append, first, ih others, totalNodes]

theorem length_postorder (e : Expression) : e.postorder.length = e.nodeCount := by
  induction e using induction_children with
  | step e ih =>
    rw [postorder_eq, List.length_append, length_placesFrom, length_flatten_postorder ih,
      nodeCount_eq_children]
    rfl

/-- The root comes after all places below it. -/
theorem idxOf_root (e : Expression) : e.postorder.idxOf [] = totalNodes e.children := by
  rw [postorder_eq, List.idxOf_append_of_notMem nil_notMem_placesFrom, length_placesFrom,
    length_flatten_postorder fun child _ => length_postorder child]
  rfl

/-- The places below a child keep their order and follow the nodes of the children before it. -/
theorem idxOf_child {e child : Expression} {k : Nat} {place : Place}
    (found : e.children[k]? = some child) (member : place ∈ child.postorder) :
    e.postorder.idxOf (k :: place) =
      totalNodes (e.children.take k) + child.postorder.idxOf place := by
  have found' : (e.children.map postorder)[k]? = some child.postorder := by
    rw [List.getElem?_map, found, Option.map_some]
  have inside : k :: place ∈ placesFrom 0 (e.children.map postorder) :=
    mem_placesFrom_iff.mpr ⟨k, _, place, found', member, by rw [Nat.zero_add]⟩
  have index := idxOf_placesFrom (k := 0) found' member
  rw [Nat.zero_add] at index
  rw [postorder_eq, List.idxOf_append_of_mem inside, index, ← List.map_take,
    length_flatten_postorder fun child _ => length_postorder child]

end Arithmetization.Expression
