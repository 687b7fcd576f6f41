import Arithmetization.Proofs.Grammar.Agreement

/-! # Trees are no larger than what they are read from

A reader begins at most one node with each symbol that it takes, and ending a construct only moves
nodes from the pending frames into an expression. So a tree has no more nodes than symbols were
read, except for the one missing atom that is added where a text ends before a term.
-/

namespace Arithmetization

/-- The number of nodes that a frame has begun. -/
def Frame.nodeCount : Frame → Nat
  | successor => 1
  | negation => 1
  | operand _ left => left.nodeCount + 1
  | parenthesis => 0
  | body _ _ => 1

theorem Frame.nodeCount_fill (frame : Frame) (e : Expression) :
    (frame.fill e).nodeCount = frame.nodeCount + e.nodeCount := by
  cases frame <;> simp only [fill, nodeCount, Expression.nodeCount] <;> omega

/-- The number of nodes that a reader has begun outside its pending frames. -/
def Phase.nodeCount : Phase → Nat
  | term => 0
  | bound _ => 1
  | after e => e.nodeCount

namespace Reader

/-- The number of nodes that pending frames have begun. -/
def pendingCount : List Frame → Nat
  | [] => 0
  | frame :: pending => frame.nodeCount + pendingCount pending

/-- The number of nodes that a reader has begun. -/
def nodeCount (reader : Reader) : Nat := reader.phase.nodeCount + pendingCount reader.pending

variable {pending : List Frame} {e : Expression}

theorem pendingCount_append (inner outer : List Frame) :
    pendingCount (inner ++ outer) = pendingCount inner + pendingCount outer := by
  induction inner with
  | nil => exact (Nat.zero_add _).symm
  | cons frame inner ih => rw [List.cons_append, pendingCount, pendingCount, ih, Nat.add_assoc]

theorem nodeCount_fillAll (frames : List Frame) (e : Expression) :
    (fillAll frames e).nodeCount = pendingCount frames + e.nodeCount := by
  induction frames generalizing e with
  | nil => exact (Nat.zero_add _).symm
  | cons frame frames ih =>
    change (fillAll frames (frame.fill e)).nodeCount = _
    rw [ih, Frame.nodeCount_fill, pendingCount]
    omega

/-- Filling frames moves their nodes into the expression. -/
theorem Fills.nodeCount {ended : List Frame × Expression} (fills : Fills pending e ended) :
    ended.2.nodeCount + pendingCount ended.1 = e.nodeCount + pendingCount pending := by
  obtain ⟨inner, split, whole⟩ := fills
  rw [whole, split, nodeCount_fillAll, pendingCount_append]
  omega

theorem nodeCount_closeAll (pending : List Frame) (e : Expression) :
    (closeAll pending e).nodeCount = e.nodeCount + pendingCount pending := by
  rw [closeAll_eq_fillAll, nodeCount_fillAll, Nat.add_comm]

end Reader

namespace Permissive

open Reader

variable {reader next : Reader} {symbols : List Symbol}

/-- A symbol begins at most one node. -/
theorem nodeCount_step {symbol : Symbol} (taken : step reader symbol = some next) :
    next.nodeCount ≤ reader.nodeCount + 1 := by
  obtain ⟨phase, pending⟩ := reader
  cases phase with
  | term =>
    -- An opening parenthesis begins no node, every other symbol begins one.
    cases symbol <;> obtain rfl := Option.some.inj taken <;>
      simp only [Reader.nodeCount, Phase.nodeCount, pendingCount, Frame.nodeCount,
        Expression.nodeCount] <;> omega
  | bound q =>
    obtain rfl := Option.some.inj taken
    simp only [Reader.nodeCount, Phase.nodeCount, pendingCount, Frame.nodeCount]
    omega
  | after e =>
    -- A closing symbol begins no node, it ends those inside its parenthesis.
    have closing (closes : afterParenthesis? pending e = some next) :
        next.nodeCount ≤ Reader.nodeCount ⟨.after e, pending⟩ + 1 := by
      obtain ⟨outer, inner, closed, rfl⟩ := exists_close_of_afterParenthesis? closes
      have same := (fills_close pending e).nodeCount
      simp only [closed, pendingCount, Frame.nodeCount] at same
      simp only [Reader.nodeCount, Phase.nodeCount]
      omega
    cases symbol with
    | operator op =>
      obtain rfl := Option.some.inj taken
      have same := (fills_settle pending e).nodeCount
      simp only [afterOperator, Reader.nodeCount, Phase.nodeCount, pendingCount,
        Frame.nodeCount]
      omega
    | _ => exact closing taken

theorem nodeCount_run {last : Reader} (run : symbols.foldlM step reader = some last) :
    last.nodeCount ≤ reader.nodeCount + symbols.length := by
  apply run_induction (motive := fun taken middle =>
    middle.nodeCount ≤ reader.nodeCount + taken.length) run
  · exact Nat.le_refl _
  · intro others middle next symbol taken held
    have step := nodeCount_step taken
    rw [List.length_append, List.length_singleton]
    omega

/-- Ending the text adds at most a missing atom. -/
theorem nodeCount_finish (reader : Reader) : (finish reader).nodeCount ≤ reader.nodeCount + 1 := by
  obtain ⟨phase, pending⟩ := reader
  cases phase with
  | term =>
    simp only [finish, nodeCount_closeAll, Expression.nodeCount, Reader.nodeCount, Phase.nodeCount]
    omega
  | bound q =>
    simp only [finish, nodeCount_closeAll, Expression.nodeCount, Reader.nodeCount, Phase.nodeCount]
    omega
  | after e =>
    simp only [finish, nodeCount_closeAll, Reader.nodeCount, Phase.nodeCount]
    omega

/-- What is consumed is a beginning of the text, and the expression is that of the reader at its
end. -/
theorem exists_run_of_parse (symbols : List Symbol) :
    ∃ reader taken rest, symbols = taken ++ rest ∧ taken.foldlM step start = some reader ∧
      parse symbols = ⟨finish reader, taken.length⟩ := by
  rcases outcome : advance step start symbols with ⟨reader, rest⟩
  obtain ⟨taken, split, run⟩ := exists_run_of_advance outcome
  refine ⟨reader, taken, rest, split, run, ?_⟩
  rw [parse_eq_of_advance outcome, split, List.length_append, Nat.add_sub_cancel]

theorem consumed_le_length (symbols : List Symbol) : (parse symbols).consumed ≤ symbols.length :=
  Nat.sub_le _ _

/-- An expression has at most one node more than symbols that it was read from. -/
theorem nodeCount_parse_le (symbols : List Symbol) :
    (parse symbols).root.nodeCount ≤ (parse symbols).consumed + 1 := by
  obtain ⟨reader, taken, rest, _, run, parsed⟩ := exists_run_of_parse symbols
  have held := nodeCount_run run
  have ended := nodeCount_finish reader
  have empty : start.nodeCount = 0 := rfl
  rw [parsed]
  dsimp only
  omega

end Permissive

namespace Strict

/-- The tree of a derivation has at most one node for each symbol; parentheses add none. -/
theorem Derivation.nodeCount_tree_le {c : Category} (d : Derivation c) :
    d.tree.nodeCount ≤ d.symbols.length := by
  induction d with
  | single t ih => exact ih
  | chain left op right ihLeft ihRight =>
    simp only [tree, symbols, Expression.nodeCount, List.length_append, List.length_cons]
    omega
  | parenthesized inner ih =>
    simp only [tree, symbols, List.length_append, List.length_cons]
    omega
  | negation operand ih => exact Nat.succ_le_succ ih
  | successor operand ih => exact Nat.succ_le_succ ih
  | quantified q v body ih =>
    simp only [tree, symbols, Expression.nodeCount, List.length_cons]
    omega
  | zero => exact Nat.le_refl 1
  | letter v => exact Nat.le_refl 1

theorem nodeCount_le_of_parse {tokens : List Token} {length : Nat} {e : Expression}
    (accepted : parse tokens length = .ok e) : e.nodeCount ≤ tokens.length := by
  obtain ⟨d, same, _, rfl⟩ := exists_derivation_of_parse accepted
  rw [← List.length_map Token.symbol, ← same]
  exact d.nodeCount_tree_le

end Strict

end Arithmetization
