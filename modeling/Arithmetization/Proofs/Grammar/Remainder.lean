import Arithmetization.Proofs.Grammar.Size

/-! # The remainder of a text

What is read from a place in the middle of a text depends on the reader there and on the symbols
that follow. `conclude` is the expression at which such a reading ends.

The permissive reader refuses a symbol only after a term, where no parenthesis is open and the
symbol is no operator. Nothing but an operator could have been taken there, so the expression does
not depend on what stands in the place of the unread symbols, as long as it begins with no operator.
-/

namespace Arithmetization.Permissive

open Reader

variable {reader next : Reader} {symbol : Symbol} {symbols rest : List Symbol}

/-! ## The expression at which reading ends -/

/-- The expression that a reader ends with if the given symbols follow. -/
def conclude (reader : Reader) (symbols : List Symbol) : Expression :=
  finish (advance step reader symbols).1

theorem root_parse (symbols : List Symbol) : (parse symbols).root = conclude start symbols := rfl

theorem conclude_append (run : symbols.foldlM step reader = some next) (rest : List Symbol) :
    conclude reader (symbols ++ rest) = conclude next rest := by
  rw [conclude, advance_append run, conclude]

theorem root_parse_append (run : symbols.foldlM step start = some reader) (rest : List Symbol) :
    (parse (symbols ++ rest)).root = conclude reader rest := by
  rw [root_parse, conclude_append run]

/-- Closing parentheses after a term add nothing to the expression, however many of them are
taken. -/
theorem conclude_closings (pending : List Frame) (e : Expression) (count : Nat) :
    conclude ⟨.after e, pending⟩ (List.replicate count .closing) = closeAll pending e := by
  induction count generalizing pending e with
  | zero => rfl
  | succ count ih =>
    rw [List.replicate_succ, conclude, advance]
    cases closes : step ⟨.after e, pending⟩ .closing with
    | none => rfl
    | some next =>
      obtain ⟨outer, inner, closed, rfl⟩ := exists_close_of_afterParenthesis? closes
      calc
        conclude ⟨.after inner, outer⟩ (List.replicate count .closing)
          = closeAll (.parenthesis :: outer) inner := ih outer inner
        _ = closeAll (close pending e).1 (close pending e).2 := by rw [closed]
        _ = closeAll pending e := closeAll_close pending e

/-- Unless an operator follows, only what ends after a term matters. -/
theorem conclude_congr {pending pending' : List Frame} {e e' : Expression}
    (same : close pending e = close pending' e') (stops : ∀ op, rest.head? ≠ some (.operator op)) :
    conclude ⟨.after e, pending⟩ rest = conclude ⟨.after e', pending'⟩ rest := by
  have finished : finish ⟨.after e, pending⟩ = finish ⟨.after e', pending'⟩ := by
    change closeAll pending e = closeAll pending' e'
    rw [← closeAll_close pending e, same, closeAll_close]
  cases rest with
  | nil => exact finished
  | cons symbol rest =>
    have taken : step ⟨.after e, pending⟩ symbol = step ⟨.after e', pending'⟩ symbol := by
      cases symbol with
      | operator op => exact (stops op rfl).elim
      | _ =>
        change afterParenthesis? pending e = afterParenthesis? pending' e'
        rw [afterParenthesis?, afterParenthesis?, same]
    rw [conclude, conclude, advance, advance, taken]
    cases step ⟨.after e', pending'⟩ symbol with
    | none => exact finished
    | some next => rfl

/-! ## Unread symbols -/

/-- A reader has come to the end of the whole expression: only an operator would continue it. -/
def Ended (reader : Reader) : Prop :=
  ∃ e, reader.phase = .after e ∧ afterParenthesis? reader.pending e = none

/-- Exactly the symbols that are no operators are refused, and only after a whole expression. -/
theorem step_eq_none_iff :
    step reader symbol = none ↔ Ended reader ∧ ∀ op, symbol ≠ .operator op := by
  obtain ⟨phase, pending⟩ := reader
  constructor
  · intro refused
    obtain ⟨e, rfl⟩ : ∃ e, phase = .after e := phase_of_refused refused
    cases symbol with
    | operator op => contradiction
    | _ => exact ⟨⟨e, rfl, refused⟩, by simp⟩
  · rintro ⟨⟨e, rfl, unclosed⟩, other⟩
    cases symbol with
    | operator op => exact (other op rfl).elim
    | _ => exact unclosed

/-- After a whole expression nothing more is read unless an operator follows. -/
theorem advance_of_ended (ended : Ended reader)
    (stops : ∀ op, rest.head? ≠ some (.operator op)) :
    advance step reader rest = (reader, rest) := by
  cases rest with
  | nil => rfl
  | cons symbol rest =>
    have refused : step reader symbol = none := by
      refine step_eq_none_iff.mpr ⟨ended, ?_⟩
      rintro op rfl
      exact stops op rfl
    rw [advance, refused]

/-- Whatever follows a whole expression without continuing it, the expression is the same. -/
theorem parse_append_of_ended {taken : List Symbol} (run : taken.foldlM step start = some reader)
    (ended : Ended reader) (stops : ∀ op, rest.head? ≠ some (.operator op)) :
    parse (taken ++ rest) = ⟨finish reader, taken.length⟩ := by
  have outcome : advance step start (taken ++ rest) = (reader, rest) := by
    rw [advance_append run, advance_of_ended ended stops]
  rw [parse_eq_of_advance outcome, List.length_append, Nat.add_sub_cancel]

/-- Where symbols are left unread, what was read is a whole expression and no operator follows. -/
theorem exists_ended_of_unread (unread : (parse symbols).consumed < symbols.length) :
    ∃ reader taken symbol rest, symbols = taken ++ symbol :: rest ∧
      taken.foldlM step start = some reader ∧ Ended reader ∧ (∀ op, symbol ≠ .operator op) ∧
      (parse symbols).consumed = taken.length := by
  rcases outcome : advance step start symbols with ⟨reader, rest⟩
  have parsed := parse_eq_of_advance outcome
  cases rest with
  | nil =>
    rw [parsed] at unread
    simp at unread
  | cons symbol rest =>
    obtain ⟨taken, split, run, refused⟩ := advance_eq_cons_iff.mp outcome
    obtain ⟨ended, other⟩ := step_eq_none_iff.mp refused
    refine ⟨reader, taken, symbol, rest, split, run, ended, other, ?_⟩
    rw [parsed, split, List.length_append, Nat.add_sub_cancel]

/-- Reading always gives an expression from a beginning of the symbols. If symbols are left unread,
the first of them is no operator, and the same is read with any others in their place that do not
begin with one. -/
theorem parse_independent_of_unread (symbols : List Symbol) :
    (parse symbols).consumed ≤ symbols.length ∧
    ((parse symbols).consumed < symbols.length →
      (∀ op, symbols[(parse symbols).consumed]? ≠ some (.operator op)) ∧
      ∀ rest : List Symbol, (∀ op, rest.head? ≠ some (.operator op)) →
        parse (symbols.take (parse symbols).consumed ++ rest) = parse symbols) := by
  refine ⟨consumed_le_length symbols, fun unread => ?_⟩
  obtain ⟨reader, taken, symbol, others, rfl, run, ended, other, consumed⟩ :=
    exists_ended_of_unread unread
  have same : parse (taken ++ symbol :: others) = ⟨finish reader, taken.length⟩ := by
    refine parse_append_of_ended run ended fun op head => ?_
    exact other op (Option.some.inj head)
  rw [consumed]
  refine ⟨fun op found => ?_, fun rest stops => ?_⟩
  · rw [List.getElem?_append_right (Nat.le_refl _), Nat.sub_self] at found
    exact other op (Option.some.inj found)
  · rw [List.take_left, same]
    exact parse_append_of_ended run ended stops

/-- The unread symbols of `(x+y)S)z` give way to other symbols and to none. -/
theorem parse_independent_of_unread_closed :
    let sum : List Symbol := [.opening, .letter .x, .operator .addition, .letter .y, .closing]
    let symbols : List Symbol := sum ++ [.successor, .closing, .letter .z]
    (parse symbols).consumed < symbols.length ∧
      parse (sum ++ [.closing, .operator .equality]) = parse symbols ∧
      parse (sum ++ []) = parse symbols := by
  intro sum symbols
  have unread : (parse symbols).consumed < symbols.length := by decide
  obtain ⟨_, same⟩ := (parse_independent_of_unread symbols).2 unread
  exact ⟨unread, same [.closing, .operator .equality] (by simp), same [] (by simp)⟩

end Arithmetization.Permissive
