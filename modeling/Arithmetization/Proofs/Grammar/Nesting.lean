import Arithmetization.Proofs.Grammar.Recognition

/-! # Nesting of parentheses

In a balanced list of symbols the nesting level never falls below zero and ends there. Two
parentheses match if the symbols between them are balanced. `bare` leaves all parentheses out.

The strict reader needs no more than the level to know whether a parenthesis may be closed, and
otherwise only looks at what stage it is at. So the sentences are the balanced lists in which every
symbol may follow the one before it, and deleting a matching pair of parentheses from a sentence
leaves a sentence.
-/

namespace Arithmetization

/-- The nesting level after a symbol; at level zero nothing can be closed. -/
def Symbol.nest : (level : Nat) → Symbol → Option Nat
  | level, opening => some (level + 1)
  | 0, closing => none
  | level + 1, closing => some level
  | level, _ => some level

/-- Every parenthesis in a list of symbols has its match there. -/
def Balanced (symbols : List Symbol) : Prop := symbols.foldlM Symbol.nest 0 = some 0

instance (symbols : List Symbol) : Decidable (Balanced symbols) :=
  inferInstanceAs (Decidable (_ = _))

@[simp] theorem Symbol.nest_opening (level : Nat) : nest level opening = some (level + 1) := by
  cases level <;> rfl

theorem Symbol.nest_add {level next : Nat} {s : Symbol} (nests : nest level s = some next)
    (outer : Nat) : nest (level + outer) s = some (next + outer) := by
  cases s with
  | opening =>
    obtain rfl := Option.some.inj nests
    rw [Nat.add_right_comm]
    rfl
  | closing =>
    cases level with
    | zero => contradiction
    | succ level =>
      obtain rfl := Option.some.inj nests
      rw [Nat.add_right_comm]
      rfl
  | _ =>
    obtain rfl := Option.some.inj nests
    rfl

/-- Levels are counted from any level outside. -/
theorem foldlM_nest_add {level last : Nat} {symbols : List Symbol}
    (nests : symbols.foldlM Symbol.nest level = some last) (outer : Nat) :
    symbols.foldlM Symbol.nest (level + outer) = some (last + outer) := by
  induction symbols generalizing level with
  | nil =>
    obtain rfl := Option.some.inj nests
    rfl
  | cons s symbols ih =>
    obtain ⟨next, first, nests⟩ := Option.bind_eq_some_iff.mp nests
    rw [List.foldlM_cons, Symbol.nest_add first]
    exact ih nests

namespace Balanced

variable {symbols inner rest : List Symbol}

/-- A balanced list begins and ends at the same level. -/
theorem level (balanced : Balanced symbols) (level : Nat) :
    symbols.foldlM Symbol.nest level = some level := by
  have nests := foldlM_nest_add balanced level
  rwa [Nat.zero_add] at nests

theorem append (first : Balanced symbols) (last : Balanced rest) : Balanced (symbols ++ rest) := by
  rw [Balanced, List.foldlM_append, first]
  exact last

theorem enclosed (balanced : Balanced symbols) :
    Balanced (.opening :: (symbols ++ [Symbol.closing])) := by
  have nests : symbols.foldlM Symbol.nest 1 = some 1 := balanced.level 1
  rw [Balanced, List.foldlM_cons]
  change (symbols ++ [Symbol.closing]).foldlM Symbol.nest 1 = some 0
  rw [List.foldlM_append, nests]
  rfl

/-- Nothing is closed after a balanced list. -/
theorem not_append_closing (balanced : Balanced symbols) :
    ¬ Balanced (symbols ++ Symbol.closing :: rest) := by
  intro longer
  rw [Balanced, List.foldlM_append, balanced] at longer
  contradiction

/-- What is opened before a beginning of a balanced list is still open after it. -/
theorem not_append_opening (balanced : Balanced (inner ++ rest)) (front : List Symbol) :
    ¬ Balanced (front ++ Symbol.opening :: inner) := by
  intro whole
  rw [Balanced, List.foldlM_append] at whole balanced
  obtain ⟨level, _, whole⟩ := Option.bind_eq_some_iff.mp whole
  obtain ⟨more, nests, _⟩ := Option.bind_eq_some_iff.mp balanced
  have nests := foldlM_nest_add nests (level + 1)
  have closed : inner.foldlM Symbol.nest (level + 1) = some 0 := whole
  rw [Nat.zero_add, closed] at nests
  simp at nests

/-- A parenthesis has only one match. -/
theorem eq_of_matched {inner' rest' : List Symbol} (balanced : Balanced inner)
    (balanced' : Balanced inner')
    (same : inner ++ Symbol.closing :: rest = inner' ++ Symbol.closing :: rest') :
    inner = inner' ∧ rest = rest' := by
  -- Between two matches the first one would have closed what the second one closes.
  have eq_nil {inner inner' rest rest' more : List Symbol} (balanced : Balanced inner)
      (balanced' : Balanced inner') (longer : inner' = inner ++ more)
      (tail : Symbol.closing :: rest = more ++ Symbol.closing :: rest') : more = [] := by
    cases more with
    | nil => rfl
    | cons s more =>
      obtain ⟨rfl, _⟩ := List.cons.inj tail
      rw [longer] at balanced'
      exact (balanced.not_append_closing balanced').elim
  rcases List.append_eq_append_iff.mp same with ⟨more, longer, tail⟩ | ⟨more, longer, tail⟩
  · obtain rfl := eq_nil balanced balanced' longer tail
    exact ⟨by simpa using longer.symm, List.tail_eq_of_cons_eq tail⟩
  · obtain rfl := eq_nil balanced' balanced longer tail
    exact ⟨by simpa using longer, (List.tail_eq_of_cons_eq tail).symm⟩

/-- Matching parentheses stand both in a balanced list or both after it. -/
theorem pair_of_append {before after : List Symbol} (balanced : Balanced symbols)
    (matched : Balanced inner)
    (same : symbols ++ rest = before ++ .opening :: (inner ++ .closing :: after)) :
    (∃ more, symbols = before ++ .opening :: (inner ++ .closing :: more) ∧ after = more ++ rest) ∨
      ∃ more, before = symbols ++ more ∧
        rest = more ++ .opening :: (inner ++ .closing :: after) := by
  rcases List.append_eq_append_iff.mp same with ⟨more, longer, tail⟩ | ⟨more, longer, tail⟩
  · exact .inr ⟨more, longer, tail⟩
  cases more with
  | nil =>
    rw [List.append_nil] at longer
    exact .inr ⟨[], by rw [longer, List.append_nil], tail.symm⟩
  | cons s more =>
    obtain ⟨rfl, inside⟩ := List.cons.inj tail
    -- The opening one stands in the list, so the closing one may not stand after it.
    rw [longer] at balanced
    rcases List.append_eq_append_iff.mp inside with ⟨others, split, last⟩ | ⟨others, split, last⟩
    · cases others with
      | nil =>
        rw [split, List.append_nil] at balanced
        rw [← List.append_nil inner] at matched
        exact (matched.not_append_opening before balanced).elim
      | cons s others =>
        obtain ⟨rfl, rfl⟩ := List.cons.inj last
        exact .inl ⟨others, by rw [longer, split], rfl⟩
    · rw [split] at matched
      exact (matched.not_append_opening before balanced).elim

/-- Matching parentheses around and in a balanced list are those around it or stand in it. -/
theorem pair_of_enclosed {before after : List Symbol} (balanced : Balanced symbols)
    (matched : Balanced inner)
    (same : .opening :: (symbols ++ [.closing]) =
      before ++ .opening :: (inner ++ .closing :: after)) :
    (before = [] ∧ inner = symbols ∧ after = []) ∨
      ∃ front back, before = .opening :: front ∧ after = back ++ [.closing] ∧
        symbols = front ++ .opening :: (inner ++ .closing :: back) := by
  cases before with
  | nil =>
    obtain ⟨rfl, rfl⟩ := balanced.eq_of_matched matched (List.tail_eq_of_cons_eq same)
    exact .inl ⟨rfl, rfl, rfl⟩
  | cons s front =>
    obtain ⟨rfl, inside⟩ := List.cons.inj same
    rcases balanced.pair_of_append matched inside with ⟨back, split, rfl⟩ | ⟨more, _, tail⟩
    · exact .inr ⟨front, back, rfl, rfl, split⟩
    · have length := congrArg List.length tail
      simp at length
      omega

end Balanced

/-! ## Symbols without parentheses -/

/-- Whether a symbol is an opening or a closing parenthesis. -/
def Symbol.isParenthesis : Symbol → Bool
  | opening => true
  | closing => true
  | _ => false

/-- Symbols without their parentheses. -/
def bare (symbols : List Symbol) : List Symbol := symbols.filter (!·.isParenthesis)

theorem bare_append (symbols rest : List Symbol) :
    bare (symbols ++ rest) = bare symbols ++ bare rest := List.filter_append ..

theorem bare_concat_opening (symbols : List Symbol) :
    bare (symbols ++ [.opening]) = bare symbols := by
  rw [bare_append]
  exact List.append_nil _

/-! ## Sentences are balanced -/

namespace Strict

open Reader

/-- What a reader may come to next, without what it has read. -/
inductive Stage where
  | term
  | bound
  | after
deriving DecidableEq, Repr

/-- The stage after a symbol, if the symbol may come next. -/
def Stage.step : Stage → Symbol → Option Stage
  | term, .opening => some term
  | term, .negation => some term
  | term, .successor => some term
  | term, .quantifier _ => some bound
  | term, .zero => some after
  | term, .letter _ => some after
  | bound, .letter _ => some term
  | after, .operator _ => some term
  | after, .closing => some after
  | _, _ => none

end Strict

/-- The stage of what a reader has before it. -/
def Phase.stage : Phase → Strict.Stage
  | term => .term
  | bound _ => .bound
  | after _ => .after

/-- The number of parentheses that a reader has open. -/
def Reader.level (reader : Reader) : Nat := reader.pending.count .parenthesis

namespace Strict

open Reader

variable {reader next : Reader} {symbol : Symbol} {symbols : List Symbol}

theorem enclosing_cases (pending : List Frame) :
    enclosing pending = [] ∨ ∃ outer, enclosing pending = .parenthesis :: outer := by
  induction pending with
  | nil => exact .inl rfl
  | cons frame pending ih =>
    cases frame with
    | parenthesis => exact .inr ⟨pending, rfl⟩
    | _ => exact ih

theorem count_enclosing (pending : List Frame) :
    (enclosing pending).count .parenthesis = pending.count .parenthesis := by
  induction pending with
  | nil => rfl
  | cons frame pending ih =>
    cases frame with
    | parenthesis => rfl
    | _ => exact ih

theorem count_settle (pending : List Frame) (e : Expression) :
    (settle pending e).1.count .parenthesis = pending.count .parenthesis := by
  rw [← count_enclosing, enclosing_settle, count_enclosing]

theorem count_close (pending : List Frame) (e : Expression) :
    (close pending e).1.count .parenthesis = pending.count .parenthesis := by
  rw [close_fst, count_enclosing]

/-- The reader goes through the stages, and its level is the nesting level. -/
theorem outline_of_step (taken : step reader symbol = some next) :
    Stage.step reader.phase.stage symbol = some next.phase.stage ∧
      Symbol.nest reader.level symbol = some next.level := by
  obtain ⟨phase, pending⟩ := reader
  cases phase with
  | term =>
    cases symbol with
    | operator op => contradiction
    | closing => contradiction
    | _ =>
      obtain rfl := Option.some.inj taken
      exact ⟨rfl, by simp [Symbol.nest, level]⟩
  | bound q =>
    cases symbol with
    | letter v =>
      obtain rfl := Option.some.inj taken
      exact ⟨rfl, by simp [Symbol.nest, level]⟩
    | _ => contradiction
  | after e =>
    cases symbol with
    | operator op =>
      obtain rfl := Option.some.inj taken
      exact ⟨rfl, by simp [Symbol.nest, level, afterOperator, count_settle]⟩
    | closing =>
      obtain ⟨outer, inner, closed, rfl⟩ := exists_close_of_afterParenthesis? taken
      have counted := count_close pending e
      rw [closed, List.count_cons_self] at counted
      exact ⟨rfl, by rw [level, ← counted]; rfl⟩
    | _ => contradiction

/-- A symbol that may come next at the stage and the level of a reader is taken. -/
theorem exists_step {stage : Stage} {last : Nat}
    (follows : Stage.step reader.phase.stage symbol = some stage)
    (nests : Symbol.nest reader.level symbol = some last) :
    ∃ next, step reader symbol = some next := by
  obtain ⟨phase, pending⟩ := reader
  cases phase with
  | term => cases symbol <;> first | contradiction | exact ⟨_, rfl⟩
  | bound q => cases symbol <;> first | contradiction | exact ⟨_, rfl⟩
  | after e =>
    cases symbol with
    | operator op => exact ⟨_, rfl⟩
    | closing =>
      rcases enclosing_cases pending with unclosed | ⟨outer, opened⟩
      · have zero := count_enclosing pending
        rw [unclosed, List.count_nil] at zero
        rw [level, ← zero] at nests
        contradiction
      · have closes : close pending e = (.parenthesis :: outer, (close pending e).2) :=
          Prod.ext ((close_fst pending e).trans opened) rfl
        exact ⟨_, afterParenthesis?_eq_some_iff.mpr closes⟩
    | _ => contradiction

theorem outline_of_run (run : symbols.foldlM step reader = some next) :
    symbols.foldlM Stage.step reader.phase.stage = some next.phase.stage ∧
      symbols.foldlM Symbol.nest reader.level = some next.level := by
  induction symbols generalizing reader with
  | nil =>
    obtain rfl := Option.some.inj run
    exact ⟨rfl, rfl⟩
  | cons symbol rest ih =>
    obtain ⟨middle, taken, run⟩ := Option.bind_eq_some_iff.mp run
    obtain ⟨follows, nests⟩ := outline_of_step taken
    rw [List.foldlM_cons, List.foldlM_cons, follows, nests]
    exact ih run

theorem exists_run {stage : Stage} {last : Nat}
    (follows : symbols.foldlM Stage.step reader.phase.stage = some stage)
    (nests : symbols.foldlM Symbol.nest reader.level = some last) :
    ∃ next, symbols.foldlM step reader = some next := by
  induction symbols generalizing reader with
  | nil => exact ⟨reader, rfl⟩
  | cons symbol rest ih =>
    obtain ⟨middleStage, first, follows⟩ := Option.bind_eq_some_iff.mp follows
    obtain ⟨middleLevel, firstLevel, nests⟩ := Option.bind_eq_some_iff.mp nests
    obtain ⟨middle, taken⟩ := exists_step first firstLevel
    obtain ⟨sameStage, sameLevel⟩ := outline_of_step taken
    obtain rfl := Option.some.inj (sameStage.symm.trans first)
    obtain rfl := Option.some.inj (sameLevel.symm.trans firstLevel)
    rw [List.foldlM_cons, taken]
    exact ih follows nests

/-- A reader may end after a term where no parenthesis is open. -/
theorem exists_finish_iff :
    (∃ e, finish? reader = some e) ↔ reader.phase.stage = .after ∧ reader.level = 0 := by
  obtain ⟨phase, pending⟩ := reader
  cases phase with
  | term => simp [finish?, Phase.stage]
  | bound q => simp [finish?, Phase.stage]
  | after e =>
    have counted := count_close pending e
    simp only [finish?, Phase.stage, level, true_and, ← counted]
    rcases enclosing_cases pending with unclosed | ⟨outer, opened⟩
    · have ended : close pending e = ([], (close pending e).2) :=
        Prod.ext ((close_fst pending e).trans unclosed) rfl
      rw [ended]
      simp
    · have ended : close pending e = (.parenthesis :: outer, (close pending e).2) :=
        Prod.ext ((close_fst pending e).trans opened) rfl
      rw [ended]
      simp

/-- The sentences are the balanced lists in which every symbol may follow the one before it. -/
theorem isSentence_iff_balanced :
    IsSentence symbols ↔ symbols.foldlM Stage.step .term = some .after ∧ Balanced symbols := by
  rw [isSentence_iff_run]
  constructor
  · rintro ⟨reader, e, run, finished⟩
    obtain ⟨ended, closed⟩ := exists_finish_iff.mp ⟨e, finished⟩
    obtain ⟨follows, nests⟩ := outline_of_run run
    rw [ended] at follows
    rw [closed] at nests
    exact ⟨follows, nests⟩
  · rintro ⟨follows, balanced⟩
    obtain ⟨reader, run⟩ : ∃ reader, symbols.foldlM step start = some reader :=
      exists_run follows balanced
    obtain ⟨sameStage, sameLevel⟩ := outline_of_run run
    have ended : reader.phase.stage = .after := Option.some.inj (sameStage.symm.trans follows)
    have closed : reader.level = 0 := Option.some.inj (sameLevel.symm.trans balanced)
    obtain ⟨e, finished⟩ := exists_finish_iff.mpr ⟨ended, closed⟩
    exact ⟨reader, e, run, finished⟩

/-- A parenthesis is opened where a term may begin, and a term may begin after it. -/
theorem Stage.step_opening {stage next : Stage} (opens : stage.step .opening = some next) :
    stage = .term ∧ next = .term := by
  cases stage with
  | term => exact ⟨rfl, (Option.some.inj opens).symm⟩
  | _ => contradiction

/-- A parenthesis is closed after a term, and is then the end of one. -/
theorem Stage.step_closing {stage next : Stage} (closes : stage.step .closing = some next) :
    stage = .after ∧ next = .after := by
  cases stage with
  | after => exact ⟨rfl, (Option.some.inj closes).symm⟩
  | _ => contradiction

/-- Deleting matching parentheses from a sentence leaves a sentence. -/
theorem IsSentence.delete_pair {before inner after : List Symbol}
    (sentence : IsSentence (before ++ .opening :: (inner ++ .closing :: after)))
    (matched : Balanced inner) : IsSentence (before ++ (inner ++ after)) := by
  rw [isSentence_iff_balanced, Balanced] at sentence ⊢
  simp only [List.foldlM_append, List.foldlM_cons] at sentence ⊢
  obtain ⟨follows, nests⟩ := sentence
  constructor
  · obtain ⟨_, first, follows⟩ := Option.bind_eq_some_iff.mp follows
    obtain ⟨_, opens, follows⟩ := Option.bind_eq_some_iff.mp follows
    obtain ⟨_, second, follows⟩ := Option.bind_eq_some_iff.mp follows
    obtain ⟨_, closes, follows⟩ := Option.bind_eq_some_iff.mp follows
    obtain ⟨rfl, rfl⟩ := Stage.step_opening opens
    obtain ⟨rfl, rfl⟩ := Stage.step_closing closes
    simp only [first, Option.bind_eq_bind, Option.bind_some, second]
    exact follows
  · obtain ⟨level, first, nests⟩ := Option.bind_eq_some_iff.mp nests
    have within : inner.foldlM Symbol.nest (level + 1) = some (level + 1) := matched.level _
    have without : inner.foldlM Symbol.nest level = some level := matched.level _
    simp only [Symbol.nest_opening, Option.bind_eq_bind, Option.bind_some, within] at nests
    simp only [first, Option.bind_eq_bind, Option.bind_some, without]
    exact nests

end Strict

end Arithmetization
