import Arithmetization.Grammar.Reader

/-! # Runs of a reader

A run over a list of inputs is the fold of the step function. `advance` either folds over the
whole list or stops at the first input that the step function refuses.

Which parentheses are open does not depend on the expressions that the frames hold: `enclosing`
forgets the frames inside the innermost parenthesis, and ending an operand or an expression leaves
it unchanged.

Every way of ending constructs fills frames from the inside: `fill` puts an expression into the
place that a frame waits for, so what `fill` preserves is preserved by all of them. What `fill` puts
before the parts of an expression is what pending frames hold, and `Gathers` keeps track of it.
-/

namespace Arithmetization

/-- The construct that a frame begins, with an expression in the place that it waits for. -/
def Frame.fill : Frame → Expression → Expression
  | successor, e => .successor e
  | negation, e => .negation e
  | operand op left, e => .binary op left e
  | parenthesis, e => e
  | body q bound, e => .quantified q bound e

/-- The symbols that a frame has begun with, without an opening parenthesis. -/
def Frame.flatten : Frame → List Symbol
  | successor => [.successor]
  | negation => [.negation]
  | operand op left => left.flatten ++ [.operator op]
  | parenthesis => []
  | body q bound => .quantifier q :: bound.toList

namespace Reader

variable {Input : Type} {step : Reader → Input → Option Reader}

/-- A reader takes all inputs exactly when the step function can be folded over them. -/
theorem advance_eq_nil_iff {reader last : Reader} {inputs : List Input} :
    advance step reader inputs = (last, []) ↔ inputs.foldlM step reader = some last := by
  induction inputs generalizing reader with
  | nil => simp [advance]
  | cons input rest ih =>
    simp only [advance, List.foldlM_cons]
    cases taken : step reader input with
    | none => simp
    | some next => simpa using ih

/-- A reader stops at an input exactly when it takes all inputs before it and refuses this one. -/
theorem advance_eq_cons_iff {reader last : Reader} {inputs rest : List Input} {input : Input} :
    advance step reader inputs = (last, input :: rest) ↔
      ∃ taken, inputs = taken ++ input :: rest ∧ taken.foldlM step reader = some last ∧
        step last input = none := by
  induction inputs generalizing reader with
  | nil => simp [advance]
  | cons first others ih =>
    cases outcome : step reader first with
    | none =>
      simp only [advance, outcome]
      constructor
      · intro stopped
        cases stopped
        exact ⟨[], rfl, rfl, outcome⟩
      · rintro ⟨taken, split, run, refused⟩
        cases taken with
        | nil =>
          cases split
          cases run
          rfl
        | cons head tail =>
          cases split
          simp [outcome] at run
    | some next =>
      simp only [advance, outcome]
      rw [ih]
      constructor
      · rintro ⟨taken, rfl, run, refused⟩
        exact ⟨first :: taken, rfl, by simpa [outcome] using run, refused⟩
      · rintro ⟨taken, split, run, refused⟩
        cases taken with
        | nil =>
          cases split
          cases run
          rw [outcome] at refused
          contradiction
        | cons head tail =>
          cases split
          exact ⟨tail, rfl, by simpa [outcome] using run, refused⟩

/-- Whatever is left over, the reader has taken all inputs before it. -/
theorem exists_run_of_advance {reader last : Reader} {inputs rest : List Input}
    (outcome : advance step reader inputs = (last, rest)) :
    ∃ taken, inputs = taken ++ rest ∧ taken.foldlM step reader = some last := by
  cases rest with
  | nil => exact ⟨inputs, (List.append_nil inputs).symm, advance_eq_nil_iff.mp outcome⟩
  | cons input rest =>
    obtain ⟨taken, split, run, _⟩ := advance_eq_cons_iff.mp outcome
    exact ⟨taken, split, run⟩

/-- The last input of a run is taken after a run over the inputs before it. -/
theorem foldlM_concat_eq_some_iff {reader last : Reader} {inputs : List Input} {input : Input} :
    (inputs ++ [input]).foldlM step reader = some last ↔
      ∃ middle, inputs.foldlM step reader = some middle ∧ step middle input = some last := by
  rw [List.foldlM_append]
  simp only [List.foldlM_cons, List.foldlM_nil, bind_pure]
  exact Option.bind_eq_some_iff

/-- What holds before a run and is kept by every step holds of all inputs of the run and its last
state. -/
theorem run_induction {motive : List Input → Reader → Prop} {reader last : Reader}
    {inputs : List Input} (run : inputs.foldlM step reader = some last) (base : motive [] reader)
    (kept : ∀ taken middle next input, step middle input = some next → motive taken middle →
      motive (taken ++ [input]) next) : motive inputs last := by
  induction inputs generalizing reader motive with
  | nil =>
    obtain rfl := Option.some.inj run
    exact base
  | cons first rest ih =>
    obtain ⟨second, began, run⟩ := Option.bind_eq_some_iff.mp run
    apply ih (motive := fun others => motive (first :: others)) run
    · exact kept [] reader second first began base
    · intro others middle next input taken holds
      exact kept (first :: others) middle next input taken holds

/-- What a run takes is not read again. -/
theorem advance_append {reader next : Reader} {inputs : List Input}
    (run : inputs.foldlM step reader = some next) (rest : List Input) :
    advance step reader (inputs ++ rest) = advance step next rest := by
  induction inputs generalizing reader with
  | nil =>
    obtain rfl := Option.some.inj run
    rfl
  | cons input inputs ih =>
    obtain ⟨middle, taken, run⟩ := Option.bind_eq_some_iff.mp run
    rw [List.cons_append, advance, taken]
    exact ih run

/-- What is left over is a part of the inputs. -/
theorem length_advance_snd_le (step : Reader → Input → Option Reader) (reader : Reader)
    (inputs : List Input) :
    (advance step reader inputs).2.length ≤ inputs.length := by
  induction inputs generalizing reader with
  | nil => exact Nat.le_refl 0
  | cons input inputs ih =>
    rw [advance]
    cases taken : step reader input with
    | none => exact Nat.le_refl _
    | some next => exact Nat.le_succ_of_le (ih next)

/-! ## Open parentheses -/

/-- The frames from the innermost open parenthesis on. -/
def enclosing : List Frame → List Frame
  | .parenthesis :: pending => .parenthesis :: pending
  | _ :: pending => enclosing pending
  | [] => []

/-- Ending an expression leaves the frames from the innermost open parenthesis on. -/
theorem close_fst (pending : List Frame) (e : Expression) :
    (close pending e).1 = enclosing pending := by
  induction pending generalizing e with
  | nil => rfl
  | cons frame pending ih =>
    cases frame with
    | parenthesis => rfl
    | _ => exact ih _

/-- Ending an operand leaves all open parentheses. -/
theorem enclosing_settle (pending : List Frame) (e : Expression) :
    enclosing (settle pending e).1 = enclosing pending := by
  induction pending generalizing e with
  | nil => rfl
  | cons frame pending ih =>
    cases frame with
    | successor => exact ih _
    | negation => exact ih _
    | _ => rfl

/-- An expression can be closed exactly where a parenthesis is open. -/
theorem afterParenthesis?_eq_some_iff {pending outer : List Frame} {e inner : Expression} :
    afterParenthesis? pending e = some ⟨.after inner, outer⟩ ↔
      close pending e = (.parenthesis :: outer, inner) := by
  unfold afterParenthesis?
  split
  · next frames whole found =>
    rw [found]
    simp [and_comm]
  · next other =>
    simp only [reduceCtorEq, false_iff]
    exact other outer inner

theorem exists_close_of_afterParenthesis? {pending : List Frame} {e : Expression} {next : Reader}
    (closes : afterParenthesis? pending e = some next) :
    ∃ outer inner, close pending e = (.parenthesis :: outer, inner) ∧
      next = ⟨.after inner, outer⟩ := by
  unfold afterParenthesis? at closes
  split at closes
  · next outer inner found => exact ⟨outer, inner, found, (Option.some.inj closes).symm⟩
  · contradiction

/-! ## Filling frames -/

/-- An expression in all of the given frames, the innermost first. -/
def fillAll (frames : List Frame) (e : Expression) : Expression :=
  frames.foldl (fun e frame => frame.fill e) e

/-- What every single frame preserves is preserved by all of them. -/
theorem fillAll_preserves {motive : Expression → Prop} {frames : List Frame} {e : Expression}
    (fills : ∀ frame ∈ frames, ∀ e, motive e → motive (frame.fill e)) (base : motive e) :
    motive (fillAll frames e) := by
  induction frames generalizing e with
  | nil => exact base
  | cons frame frames ih =>
    apply ih
    · intro other member
      exact fills other (List.mem_cons_of_mem frame member)
    · exact fills frame List.mem_cons_self e base

theorem closeAll_eq_fillAll (pending : List Frame) (e : Expression) :
    closeAll pending e = fillAll pending e := by
  induction pending generalizing e with
  | nil => rfl
  | cons frame pending ih => cases frame <;> exact ih _

/-- Some innermost frames have been filled; the others still wait. -/
def Fills (pending : List Frame) (e : Expression) (ended : List Frame × Expression) : Prop :=
  ∃ inner, pending = inner ++ ended.1 ∧ ended.2 = fillAll inner e

namespace Fills

variable {pending : List Frame} {e : Expression} {ended : List Frame × Expression}

theorem refl (pending : List Frame) (e : Expression) : Fills pending e (pending, e) :=
  ⟨[], rfl, rfl⟩

theorem cons {frame : Frame} (fills : Fills pending (frame.fill e) ended) :
    Fills (frame :: pending) e ended := by
  obtain ⟨inner, split, whole⟩ := fills
  exact ⟨frame :: inner, congrArg (frame :: ·) split, whole⟩

/-- The frames that still wait were pending before. -/
theorem mem_of_mem (fills : Fills pending e ended) {frame : Frame} (member : frame ∈ ended.1) :
    frame ∈ pending := by
  obtain ⟨inner, split, _⟩ := fills
  rw [split]
  exact List.mem_append_right inner member

theorem preserves {motive : Expression → Prop} (fills : Fills pending e ended)
    (steps : ∀ frame ∈ pending, ∀ e, motive e → motive (frame.fill e)) (base : motive e) :
    motive ended.2 := by
  obtain ⟨inner, split, whole⟩ := fills
  rw [whole]
  apply fillAll_preserves _ base
  intro frame member
  apply steps
  rw [split]
  exact List.mem_append_left ended.1 member

end Fills

/-- Ending an expression fills the frames inside the innermost parenthesis. -/
theorem fills_close (pending : List Frame) (e : Expression) :
    Fills pending e (close pending e) := by
  induction pending generalizing e with
  | nil => exact .refl [] e
  | cons frame pending ih =>
    cases frame with
    | parenthesis => exact .refl _ e
    | _ => exact (ih _).cons

/-- Ending an operand fills the prefix operators before it and at most one operator. -/
theorem fills_settle (pending : List Frame) (e : Expression) :
    Fills pending e (settle pending e) := by
  induction pending generalizing e with
  | nil => exact .refl [] e
  | cons frame pending ih =>
    cases frame with
    | successor => exact (ih _).cons
    | negation => exact (ih _).cons
    | operand op left => exact (Fills.refl pending _).cons
    | parenthesis => exact .refl _ e
    | body q bound => exact .refl _ e

/-- Ending every construct first ends those inside the innermost parenthesis. -/
theorem closeAll_close (pending : List Frame) (e : Expression) :
    closeAll (close pending e).1 (close pending e).2 = closeAll pending e := by
  obtain ⟨inner, split, whole⟩ := fills_close pending e
  calc
    closeAll (close pending e).1 (close pending e).2
      = fillAll (close pending e).1 (fillAll inner e) := by rw [closeAll_eq_fillAll, whole]
    _ = fillAll (inner ++ (close pending e).1) e := List.foldl_append.symm
    _ = closeAll pending e := by rw [← split, closeAll_eq_fillAll]

/-! ## What frames hold -/

section

variable {Part : Type} {held : Frame → List Part} {parts : Expression → List Part}

/-- What pending frames hold, that of the outermost frame first. -/
def gather (held : Frame → List Part) : List Frame → List Part
  | [] => []
  | frame :: pending => gather held pending ++ held frame

theorem gather_append (inner outer : List Frame) :
    gather held (inner ++ outer) = gather held outer ++ gather held inner := by
  induction inner with
  | nil => exact (List.append_nil _).symm
  | cons frame inner ih => rw [List.cons_append, gather, gather, ih, List.append_assoc]

/-- Filling a frame puts what it holds before the parts of the expression that fills it. -/
def Gathers (held : Frame → List Part) (parts : Expression → List Part) : Prop :=
  ∀ frame e, parts (Frame.fill frame e) = held frame ++ parts e

namespace Gathers

variable (gathers : Gathers held parts)

include gathers

theorem fillAll (frames : List Frame) (e : Expression) :
    parts (fillAll frames e) = gather held frames ++ parts e := by
  induction frames generalizing e with
  | nil => rfl
  | cons frame frames ih =>
    change parts (Reader.fillAll frames (frame.fill e)) = _
    rw [ih, gathers, gather, List.append_assoc]

/-- Filling frames moves what they hold into the expression. -/
theorem fills {pending : List Frame} {e : Expression} {ended : List Frame × Expression}
    (fills : Fills pending e ended) :
    gather held ended.1 ++ parts ended.2 = gather held pending ++ parts e := by
  obtain ⟨inner, split, whole⟩ := fills
  rw [whole, split, gathers.fillAll, gather_append, List.append_assoc]

theorem closeAll (pending : List Frame) (e : Expression) :
    parts (closeAll pending e) = gather held pending ++ parts e := by
  rw [closeAll_eq_fillAll, gathers.fillAll]

end Gathers

end

theorem gathers_flatten : Gathers Frame.flatten Expression.flatten := by
  intro frame e
  cases frame with
  | operand op left => exact List.append_cons ..
  | _ => rfl

end Reader

end Arithmetization
