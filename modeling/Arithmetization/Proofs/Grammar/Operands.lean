import Arithmetization.Proofs.Grammar.Remainder

/-! # Left operands are settled when their operator is read

With one level of precedence the left operand of an operator is known as soon as the operator is
read, and nothing that follows changes it. So the left operands of all operators, in written order,
only grow at their end while a text is read. Two texts that give an operator different left operands
after the same ones before it have different trees.
-/

namespace Arithmetization

open Reader

/-- The left operands of all operators, in the written order of the operators. -/
def Expression.leftOperands : Expression → List Expression
  | atom _ => []
  | successor operand => operand.leftOperands
  | negation operand => operand.leftOperands
  | binary _ left right => left.leftOperands ++ left :: right.leftOperands
  | quantified _ _ body => body.leftOperands

/-- The left operands of the operators that a frame has begun with. -/
def Frame.leftOperands : Frame → List Expression
  | operand _ left => left.leftOperands ++ [left]
  | _ => []

theorem gathers_leftOperands : Gathers Frame.leftOperands Expression.leftOperands := by
  intro frame e
  cases frame with
  | operand op left => exact List.append_cons ..
  | _ => rfl

/-- The left operands in a finished term. -/
def Phase.leftOperands : Phase → List Expression
  | after e => e.leftOperands
  | _ => []

namespace Reader

/-- The left operands in pending frames, those of the outermost frame first. -/
def pendingOperands : List Frame → List Expression
  | [] => []
  | frame :: pending => pendingOperands pending ++ frame.leftOperands

/-- The left operands of all operators that a reader has read. -/
def leftOperands (reader : Reader) : List Expression :=
  pendingOperands reader.pending ++ reader.phase.leftOperands

variable {pending : List Frame} {e : Expression}

theorem pendingOperands_eq_gather (pending : List Frame) :
    pendingOperands pending = gather Frame.leftOperands pending := by
  induction pending with
  | nil => rfl
  | cons frame pending ih => rw [pendingOperands, ih, gather]

theorem pendingOperands_append (inner outer : List Frame) :
    pendingOperands (inner ++ outer) = pendingOperands outer ++ pendingOperands inner := by
  simp only [pendingOperands_eq_gather, gather_append]

/-- Filling frames moves their left operands into the expression. -/
theorem Fills.leftOperands {ended : List Frame × Expression} (fills : Fills pending e ended) :
    pendingOperands ended.1 ++ ended.2.leftOperands =
      pendingOperands pending ++ e.leftOperands := by
  rw [pendingOperands_eq_gather, pendingOperands_eq_gather]
  exact gathers_leftOperands.fills fills

theorem leftOperands_closeAll (pending : List Frame) (e : Expression) :
    (closeAll pending e).leftOperands = pendingOperands pending ++ e.leftOperands := by
  rw [pendingOperands_eq_gather]
  exact gathers_leftOperands.closeAll pending e

/-- An operator adds the operand that ends before it. -/
theorem leftOperands_afterOperator (op : Operator) (pending : List Frame) (e : Expression) :
    (afterOperator op pending e).leftOperands =
      pendingOperands pending ++ e.leftOperands ++ [(settle pending e).2] := by
  rw [← (fills_settle pending e).leftOperands, List.append_assoc]
  exact List.append_nil _

end Reader

namespace Permissive

variable {reader next : Reader} {symbols symbols' : List Symbol}

/-- The permissive step only adds left operands. -/
theorem leftOperands_step {symbol : Symbol} (taken : step reader symbol = some next) :
    reader.leftOperands <+: next.leftOperands := by
  obtain ⟨phase, pending⟩ := reader
  cases phase with
  | term =>
    cases symbol <;> obtain rfl := Option.some.inj taken <;>
      simp [Reader.leftOperands, pendingOperands, Frame.leftOperands, Phase.leftOperands,
        Expression.leftOperands]
  | bound q =>
    obtain rfl := Option.some.inj taken
    simp [Reader.leftOperands, pendingOperands, Frame.leftOperands, Phase.leftOperands]
  | after e =>
    have closing (closes : afterParenthesis? pending e = some next) :
        Reader.leftOperands ⟨.after e, pending⟩ <+: next.leftOperands := by
      obtain ⟨outer, inner, closed, rfl⟩ := exists_close_of_afterParenthesis? closes
      have same := (fills_close pending e).leftOperands
      simp only [closed, pendingOperands, Frame.leftOperands, List.append_nil] at same
      simp only [Reader.leftOperands, Phase.leftOperands, same, List.prefix_rfl]
    cases symbol with
    | operator op =>
      obtain rfl := Option.some.inj taken
      rw [leftOperands_afterOperator]
      exact List.prefix_append _ _
    | _ => exact closing taken

theorem leftOperands_finish (reader : Reader) :
    (finish reader).leftOperands = reader.leftOperands := by
  obtain ⟨phase, pending⟩ := reader
  cases phase <;> exact leftOperands_closeAll pending _

/-- What has been read before an operand keeps its left operands in the whole tree. -/
theorem leftOperands_conclude (reader : Reader) (symbols : List Symbol) :
    reader.leftOperands <+: (conclude reader symbols).leftOperands := by
  have finished (reader : Reader) : reader.leftOperands <+: (finish reader).leftOperands := by
    simp only [leftOperands_finish, List.prefix_rfl]
  induction symbols generalizing reader with
  | nil => exact finished reader
  | cons symbol rest ih =>
    rw [conclude, advance]
    cases taken : step reader symbol with
    | none => exact finished reader
    | some next => exact (leftOperands_step taken).trans (ih next)

/-- An operator after some symbols would get the given left operand; `earlier` are the left operands
of the operators before it. -/
def Offers (symbols : List Symbol) (earlier : List Expression) (operand : Expression) : Prop :=
  ∃ pending last, symbols.foldlM step start = some ⟨.after last, pending⟩ ∧
    pendingOperands pending ++ last.leftOperands = earlier ∧ (settle pending last).2 = operand

variable {earlier : List Expression} {operand operand' : Expression}

/-- The operator that follows has the offered operand in the whole tree. -/
theorem Offers.prefix_leftOperands (offers : Offers symbols earlier operand) (op : Operator)
    (rest : List Symbol) :
    earlier ++ [operand] <+: (parse (symbols ++ .operator op :: rest)).root.leftOperands := by
  obtain ⟨pending, last, run, rfl, rfl⟩ := offers
  have continued : (symbols ++ [Symbol.operator op]).foldlM step start =
      some (afterOperator op pending last) := foldlM_concat_eq_some_iff.mpr ⟨_, run, rfl⟩
  rw [← leftOperands_afterOperator, List.append_cons, root_parse_append continued]
  exact leftOperands_conclude _ _

/-- Two texts that offer different operands to an operator, after the same left operands of the
operators before it, are read as different trees. -/
theorem Offers.root_ne (offers : Offers symbols earlier operand)
    (offers' : Offers symbols' earlier operand') (differ : operand ≠ operand')
    (op op' : Operator) (rest rest' : List Symbol) :
    (parse (symbols ++ .operator op :: rest)).root ≠
      (parse (symbols' ++ .operator op' :: rest')).root := by
  intro equal
  have left := offers.prefix_leftOperands op rest
  have right := offers'.prefix_leftOperands op' rest'
  rw [← equal] at right
  have length : (earlier ++ [operand]).length = (earlier ++ [operand']).length := by simp
  have aligned := (List.prefix_of_prefix_length_le left right length.le).eq_of_length length
  exact differ (by simpa using aligned)

/-! ## Frames further out -/

variable {outer : List Frame}

theorem settle_append (begins : ∀ e, settle outer e = (outer, e)) (frames : List Frame)
    (e : Expression) :
    settle (frames ++ outer) e = ((settle frames e).1 ++ outer, (settle frames e).2) := by
  induction frames generalizing e with
  | nil => exact begins e
  | cons frame frames ih =>
    cases frame with
    | successor => exact ih _
    | negation => exact ih _
    | _ => rfl

theorem close_append {frames rest : List Frame} {e inner : Expression}
    (closed : close frames e = (.parenthesis :: rest, inner)) (outer : List Frame) :
    close (frames ++ outer) e = (.parenthesis :: (rest ++ outer), inner) := by
  induction frames generalizing e with
  | nil => cases closed
  | cons frame frames ih =>
    cases frame with
    | parenthesis =>
      cases closed
      rfl
    | _ => exact ih closed

/-- What is read from the beginning of an expression is read alike where other constructs wait for
that expression. -/
theorem step_append (begins : ∀ e, settle outer e = (outer, e)) {symbol : Symbol}
    (taken : step reader symbol = some next) :
    step ⟨reader.phase, reader.pending ++ outer⟩ symbol =
      some ⟨next.phase, next.pending ++ outer⟩ := by
  obtain ⟨phase, pending⟩ := reader
  cases phase with
  | term => cases symbol <;> obtain rfl := Option.some.inj taken <;> rfl
  | bound q =>
    obtain rfl := Option.some.inj taken
    rfl
  | after e =>
    have closing (closes : afterParenthesis? pending e = some next) :
        afterParenthesis? (pending ++ outer) e = some ⟨next.phase, next.pending ++ outer⟩ := by
      obtain ⟨rest, inner, closed, rfl⟩ := exists_close_of_afterParenthesis? closes
      exact afterParenthesis?_eq_some_iff.mpr (close_append closed outer)
    cases symbol with
    | operator op =>
      obtain rfl := Option.some.inj taken
      change some (afterOperator op (pending ++ outer) e) = _
      rw [afterOperator, settle_append begins]
      rfl
    | _ => exact closing taken

theorem run_append (begins : ∀ e, settle outer e = (outer, e))
    (run : symbols.foldlM step reader = some next) :
    symbols.foldlM step ⟨reader.phase, reader.pending ++ outer⟩ =
      some ⟨next.phase, next.pending ++ outer⟩ := by
  induction symbols generalizing reader with
  | nil =>
    obtain rfl := Option.some.inj run
    rfl
  | cons symbol rest ih =>
    obtain ⟨middle, taken, run⟩ := Option.bind_eq_some_iff.mp run
    rw [List.foldlM_cons, step_append begins taken]
    exact ih run

end Permissive

end Arithmetization
