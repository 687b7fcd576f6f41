import Arithmetization.Proofs.Grammar.Derivation
import Arithmetization.Proofs.Grammar.Reading
import Mathlib.Logic.ExistsUnique

/-! # What the strict reader recognizes

Soundness follows the reader: `Opened` says which symbols begin the constructs that still wait for
a part, `Reads` adds what came after them, and every step preserves it. Completeness only follows
the open parentheses, so it holds of every derivation, greedy or not. With unique reading the two
determine the expression that is read.

Other modules use `isSentence_iff_run` for runs of the reader, and `parse_eq_ok_iff` and
`exists_parse_eq_ok_iff` for whole formulas.
-/

namespace Arithmetization.Strict

open Reader

variable {c : Category}

/-! ## Soundness -/

/-- The constructs that some symbols begin, with the category of the phrase that they wait for. -/
inductive Opened : Category → List Frame → List Symbol → Prop where
  | start : Opened .expression [] []
  | parenthesis {c : Category} {pending : List Frame} {before : List Symbol}
      (outer : Opened c pending before) :
      Opened .expression (.parenthesis :: pending) (before ++ [.opening])
  | body {c : Category} {pending : List Frame} {before : List Symbol}
      (outer : Opened c pending before) (q : Quantifier) (v : Letter) :
      Opened .expression (.body q (some (.letter v)) :: pending)
        (before ++ [.quantifier q, .letter v])
  | negation {c : Category} {pending : List Frame} {before : List Symbol}
      (outer : Opened c pending before) :
      Opened .term (.negation :: pending) (before ++ [.negation])
  | successor {c : Category} {pending : List Frame} {before : List Symbol}
      (outer : Opened c pending before) :
      Opened .term (.successor :: pending) (before ++ [.successor])
  | operand {pending : List Frame} {before : List Symbol}
      (outer : Opened .expression pending before) (left : Derivation .expression)
      (op : Operator) (greedy : left.Greedy) (closed : left.endsInQuantifier = false) :
      Opened .term (.operand op left.tree :: pending)
        (before ++ (left.symbols ++ [.operator op]))

/-- A term that may precede an operator ends as the left operand of that operator. -/
theorem Opened.settle {pending : List Frame} {before : List Symbol}
    (opened : Opened c pending before) (t : Derivation .term) (greedy : t.Greedy)
    (closed : t.endsInQuantifier = false) :
    ∃ outer earlier, ∃ left : Derivation .expression,
      Reader.settle pending t.tree = (outer, left.tree) ∧ Opened .expression outer earlier ∧
      earlier ++ left.symbols = before ++ t.symbols ∧ left.Greedy ∧
      left.endsInQuantifier = false := by
  induction opened generalizing t with
  | start => exact ⟨_, _, .single t, rfl, .start, rfl, greedy, closed⟩
  | parenthesis outer => exact ⟨_, _, .single t, rfl, .parenthesis outer, rfl, greedy, closed⟩
  | body outer q v => exact ⟨_, _, .single t, rfl, .body outer q v, rfl, greedy, closed⟩
  | negation outer ih =>
    obtain ⟨pending, earlier, left, settled, opened, same, facts⟩ := ih (.negation t) greedy closed
    exact ⟨pending, earlier, left, settled, opened, by simpa [Derivation.symbols] using same, facts⟩
  | successor outer ih =>
    obtain ⟨pending, earlier, left, settled, opened, same, facts⟩ := ih (.successor t) greedy closed
    exact ⟨pending, earlier, left, settled, opened, by simpa [Derivation.symbols] using same, facts⟩
  | operand outer left op greedyLeft closedLeft ih =>
    refine ⟨_, _, .chain left op t, rfl, outer, ?_, ⟨closedLeft, greedyLeft, greedy⟩, closed⟩
    simp [Derivation.symbols]

/-- A phrase ends as the last part of the expression in the innermost parenthesis or, without an
open parenthesis, of the whole expression. -/
theorem Opened.close {pending : List Frame} {before : List Symbol}
    (opened : Opened c pending before) (d : Derivation c) (greedy : d.Greedy) :
    ∃ whole : Derivation .expression, whole.Greedy ∧
      ((Reader.close pending d.tree = ([], whole.tree) ∧ whole.symbols = before ++ d.symbols) ∨
        ∃ c' outer earlier, Reader.close pending d.tree = (.parenthesis :: outer, whole.tree) ∧
          Opened c' outer earlier ∧
          earlier ++ .opening :: whole.symbols = before ++ d.symbols) := by
  induction opened with
  | start => exact ⟨d, greedy, .inl ⟨rfl, rfl⟩⟩
  | @parenthesis c' outer earlier opened =>
    exact ⟨d, greedy, .inr ⟨c', outer, earlier, rfl, opened, by simp⟩⟩
  | @body c' _ _ outer q v ih =>
    have ended := ih (.ofTerm c' (.quantified q v d)) ((Derivation.greedy_ofTerm _ _).mpr greedy)
    simpa [Derivation.symbols, Derivation.tree, Reader.close] using ended
  | @negation c' _ _ outer ih =>
    have ended := ih (.ofTerm c' (.negation d)) ((Derivation.greedy_ofTerm _ _).mpr greedy)
    simpa [Derivation.symbols, Derivation.tree, Reader.close] using ended
  | @successor c' _ _ outer ih =>
    have ended := ih (.ofTerm c' (.successor d)) ((Derivation.greedy_ofTerm _ _).mpr greedy)
    simpa [Derivation.symbols, Derivation.tree, Reader.close] using ended
  | operand outer left op greedyLeft closedLeft ih =>
    have ended := ih (.chain left op d) ⟨closedLeft, greedyLeft, greedy⟩
    simpa [Derivation.symbols, Derivation.tree, Reader.close] using ended

/-- What a reader has read: the beginnings of the open constructs, then at most a quantifier or
a finished term. -/
inductive Reads : Reader → List Symbol → Prop where
  | term {c : Category} {pending : List Frame} {before : List Symbol}
      (opened : Opened c pending before) : Reads ⟨.term, pending⟩ before
  | bound {c : Category} {pending : List Frame} {before : List Symbol}
      (opened : Opened c pending before) (q : Quantifier) :
      Reads ⟨.bound q, pending⟩ (before ++ [.quantifier q])
  | after {c : Category} {pending : List Frame} {before : List Symbol}
      (opened : Opened c pending before) (t : Derivation .term) (greedy : t.Greedy)
      (closed : t.endsInQuantifier = false) :
      Reads ⟨.after t.tree, pending⟩ (before ++ t.symbols)

/-- Taking a symbol extends what has been read by that symbol. -/
theorem Reads.step {reader next : Reader} {before : List Symbol} {symbol : Symbol}
    (reads : Reads reader before) (taken : Strict.step reader symbol = some next) :
    Reads next (before ++ [symbol]) := by
  cases reads with
  | term opened =>
    cases symbol with
    | opening => obtain rfl := Option.some.inj taken; exact .term (.parenthesis opened)
    | negation => obtain rfl := Option.some.inj taken; exact .term (.negation opened)
    | successor => obtain rfl := Option.some.inj taken; exact .term (.successor opened)
    | quantifier q => obtain rfl := Option.some.inj taken; exact .bound opened q
    | zero => obtain rfl := Option.some.inj taken; exact .after opened .zero trivial rfl
    | letter v => obtain rfl := Option.some.inj taken; exact .after opened (.letter v) trivial rfl
    | operator op => simp [Strict.step] at taken
    | closing => simp [Strict.step] at taken
  | bound opened q =>
    cases symbol with
    | letter v =>
      obtain rfl := Option.some.inj taken
      simpa using Reads.term (.body opened q v)
    | _ => simp [Strict.step] at taken
  | @after c _ _ opened t greedy closed =>
    cases symbol with
    | operator op =>
      obtain rfl := Option.some.inj taken
      obtain ⟨outer, earlier, left, settled, opened, same, greedyLeft, closedLeft⟩ :=
        opened.settle t greedy closed
      have reads := Reads.term (.operand opened left op greedyLeft closedLeft)
      rw [← List.append_assoc, same] at reads
      simpa [afterOperator, settled] using reads
    | closing =>
      obtain ⟨whole, greedyWhole, ⟨ended, _⟩ | ⟨_, outer, earlier, ended, opened, same⟩⟩ :=
        opened.close (.ofTerm c t) ((Derivation.greedy_ofTerm c t).mpr greedy)
      · rw [Derivation.tree_ofTerm] at ended
        simp [Strict.step, afterParenthesis?, ended] at taken
      · rw [Derivation.tree_ofTerm] at ended
        obtain rfl : ⟨.after whole.tree, outer⟩ = next := by
          simpa [Strict.step, afterParenthesis?, ended] using taken
        rw [Derivation.symbols_ofTerm] at same
        have reads := Reads.after opened (.parenthesized whole) greedyWhole rfl
        rw [← same]
        simpa [Derivation.symbols, Derivation.tree] using reads
    | _ => simp [Strict.step] at taken

/-- What has been read after a run begins with what had been read before it. -/
theorem Reads.run {reader last : Reader} {before symbols : List Symbol}
    (reads : Reads reader before) (run : symbols.foldlM Strict.step reader = some last) :
    Reads last (before ++ symbols) := by
  apply run_induction (motive := fun taken middle => Reads middle (before ++ taken)) run
  · rwa [List.append_nil]
  · intro others middle next symbol taken reads
    rw [← List.append_assoc]
    exact reads.step taken

/-- A reader that may end has read a greedy derivation of its expression. -/
theorem Reads.finish {reader : Reader} {before : List Symbol} {e : Expression}
    (reads : Reads reader before) (finished : finish? reader = some e) :
    ∃ d : Derivation .expression, d.symbols = before ∧ d.Greedy ∧ d.tree = e := by
  cases reads with
  | term opened => simp [finish?] at finished
  | bound opened q => simp [finish?] at finished
  | @after c _ _ opened t greedy closed =>
    obtain ⟨whole, greedyWhole, ⟨ended, same⟩ | ⟨_, outer, earlier, ended, _⟩⟩ :=
      opened.close (.ofTerm c t) ((Derivation.greedy_ofTerm c t).mpr greedy)
    · rw [Derivation.tree_ofTerm] at ended
      refine ⟨whole, by simpa using same, greedyWhole, ?_⟩
      simpa [finish?, ended] using finished
    · rw [Derivation.tree_ofTerm] at ended
      simp [finish?, ended] at finished

/-! ## Completeness -/

/-- Every derivation can be read in every context, and closes all parentheses that it opens. -/
theorem Derivation.run (d : Derivation c) (pending : List Frame) :
    ∃ e inner, d.symbols.foldlM step ⟨.term, pending⟩ = some ⟨.after e, inner⟩ ∧
      enclosing inner = enclosing pending := by
  induction d generalizing pending with
  | single t ih => exact ih pending
  | chain left op right ihLeft ihRight =>
    obtain ⟨e, inner, run, same⟩ := ihLeft pending
    obtain ⟨e', inner', run', same'⟩ :=
      ihRight (.operand op (settle inner e).2 :: (settle inner e).1)
    refine ⟨e', inner', by simpa [symbols, run, step, afterOperator] using run', ?_⟩
    calc
      enclosing inner' = enclosing (settle inner e).1 := same'
      _ = enclosing inner := enclosing_settle inner e
      _ = enclosing pending := same
  | parenthesized inside ih =>
    obtain ⟨e, inner, run, same⟩ := ih (.parenthesis :: pending)
    refine ⟨(close inner e).2, pending, ?_, rfl⟩
    have closes : afterParenthesis? inner e = some ⟨.after (close inner e).2, pending⟩ :=
      afterParenthesis?_eq_some_iff.mpr (Prod.ext ((close_fst inner e).trans same) rfl)
    simp [symbols, step, run, closes]
  | negation operand ih =>
    obtain ⟨e, inner, run, same⟩ := ih (.negation :: pending)
    exact ⟨e, inner, by simpa [symbols, step] using run, same⟩
  | successor operand ih =>
    obtain ⟨e, inner, run, same⟩ := ih (.successor :: pending)
    exact ⟨e, inner, by simpa [symbols, step] using run, same⟩
  | quantified q v body ih =>
    obtain ⟨e, inner, run, same⟩ := ih (.body q (some (.letter v)) :: pending)
    exact ⟨e, inner, by simpa [symbols, step] using run, same⟩
  | zero => exact ⟨_, pending, rfl, rfl⟩
  | letter v => exact ⟨_, pending, rfl, rfl⟩

/-- A sentence is read to its end, where nothing is open. -/
theorem Derivation.exists_run_finish (d : Derivation .expression) :
    ∃ reader e, d.symbols.foldlM step start = some reader ∧ finish? reader = some e := by
  obtain ⟨e, inner, run, same⟩ := d.run []
  refine ⟨_, (close inner e).2, run, ?_⟩
  have ended : close inner e = ([], (close inner e).2) :=
    Prod.ext ((close_fst inner e).trans same) rfl
  simp only [finish?]
  rw [ended]

/-! ## Reading whole formulas -/

/-- The three ways in which reading a formula ends, each with its result. -/
theorem parse_cases (tokens : List Token) (length : Nat) :
    (∃ reader e, (tokens.map Token.symbol).foldlM step start = some reader ∧
      finish? reader = some e ∧ parse tokens length = .ok e) ∨
    (∃ reader, (tokens.map Token.symbol).foldlM step start = some reader ∧
      finish? reader = none ∧ parse tokens length = .error (.unexpectedEnd length)) ∨
    ∃ before token after reader, tokens = before ++ token :: after ∧
      (before.map Token.symbol).foldlM step start = some reader ∧
      step reader token.symbol = none ∧
      parse tokens length = .error (.unexpectedToken token.symbol token.start) := by
  unfold parse
  rcases outcome : advance (fun reader token => step reader token.symbol) start tokens with
    ⟨last, rest⟩
  cases rest with
  | nil =>
    have run := advance_eq_nil_iff.mp outcome
    rw [← List.foldlM_map] at run
    cases finished : finish? last with
    | some e => exact .inl ⟨last, e, run, finished, by simp only [outcome, finished]⟩
    | none => exact .inr (.inl ⟨last, run, finished, by simp only [outcome, finished]⟩)
  | cons token after =>
    obtain ⟨before, split, run, refused⟩ := advance_eq_cons_iff.mp outcome
    rw [← List.foldlM_map] at run
    exact .inr (.inr ⟨before, token, after, last, split, run, refused, by simp only [outcome]⟩)

/-- The sentences are the lists that are read to their end. -/
theorem isSentence_iff_run {symbols : List Symbol} :
    IsSentence symbols ↔ ∃ reader e, symbols.foldlM step start = some reader ∧
      finish? reader = some e := by
  constructor
  · rintro ⟨d, rfl⟩
    exact d.exists_run_finish
  · rintro ⟨reader, e, run, finished⟩
    obtain ⟨d, same, _⟩ := ((Reads.term .start).run run).finish finished
    exact ⟨d, same⟩

/-- A run ends where a symbol is refused. -/
theorem foldlM_step_eq_none {before after : List Symbol} {symbol : Symbol} {reader : Reader}
    (run : before.foldlM step start = some reader) (refused : step reader symbol = none) :
    (before ++ symbol :: after).foldlM step start = none := by
  simp [List.foldlM_append, run, refused]

/-- The expression of a formula is the tree of a greedy derivation of it. -/
theorem exists_derivation_of_parse {tokens : List Token} {length : Nat} {e : Expression}
    (parsed : parse tokens length = .ok e) : ∃ d : Derivation .expression,
      d.symbols = tokens.map Token.symbol ∧ d.Greedy ∧ d.tree = e := by
  obtain ⟨reader, e', run, finished, result⟩ | ⟨_, _, _, result⟩ | ⟨_, _, _, _, _, _, _, result⟩ :=
    parse_cases tokens length
  · obtain rfl : e = e' := Except.ok.inj (parsed.symm.trans result)
    exact ((Reads.term .start).run run).finish finished
  · rw [result] at parsed
    contradiction
  · rw [result] at parsed
    contradiction

/-- The formulas that are read are the sentences. -/
theorem exists_parse_eq_ok_iff {tokens : List Token} {length : Nat} :
    (∃ e, parse tokens length = .ok e) ↔ IsSentence (tokens.map Token.symbol) := by
  constructor
  · rintro ⟨e, parsed⟩
    obtain ⟨d, same, _⟩ := exists_derivation_of_parse parsed
    exact ⟨d, same⟩
  · intro sentence
    obtain ⟨reader, e, run, finished⟩ := isSentence_iff_run.mp sentence
    obtain ⟨_, e', _, _, result⟩ | ⟨other, run', unfinished, _⟩ |
      ⟨before, token, after, other, rfl, run', refused, _⟩ := parse_cases tokens length
    · exact ⟨e', result⟩
    · obtain rfl : reader = other := Option.some.inj (run.symm.trans run')
      rw [finished] at unfinished
      contradiction
    · rw [List.map_append, List.map_cons, foldlM_step_eq_none run' refused] at run
      contradiction

/-- Every sentence has a greedy derivation, and its tree is the expression that is read. -/
theorem parse_eq_ok_iff {tokens : List Token} {length : Nat} {e : Expression} :
    parse tokens length = .ok e ↔ ∃ d : Derivation .expression,
      d.symbols = tokens.map Token.symbol ∧ d.Greedy ∧ d.tree = e := by
  constructor
  · exact exists_derivation_of_parse
  · rintro ⟨d, same, greedy, rfl⟩
    obtain ⟨e, parsed⟩ : ∃ e, parse tokens length = .ok e :=
      exists_parse_eq_ok_iff.mpr ⟨d, same⟩
    obtain ⟨d', same', greedy', rfl⟩ := exists_derivation_of_parse parsed
    rw [Derivation.eq_of_symbols_eq greedy greedy' (same.trans same'.symm)]
    exact parsed

/-- The reader recognizes the grammar and resolves its ambiguity in one way: it reads exactly the
sentences, a sentence has exactly one greedy derivation, and the tree of that derivation is the
expression that is read, whatever the positions of the tokens are. -/
theorem parse_recognizes (tokens : List Token) (length : Nat) :
    ((∃ e, parse tokens length = .ok e) ↔ IsSentence (tokens.map Token.symbol)) ∧
    (IsSentence (tokens.map Token.symbol) ↔
      ∃! d : Derivation .expression, d.symbols = tokens.map Token.symbol ∧ d.Greedy) ∧
    ∀ e, parse tokens length = .ok e ↔ ∃ d : Derivation .expression,
      (d.symbols = tokens.map Token.symbol ∧ d.Greedy) ∧ d.tree = e := by
  refine ⟨exists_parse_eq_ok_iff, ⟨?_, ?_⟩, fun e => ?_⟩
  · intro sentence
    obtain ⟨e, parsed⟩ : ∃ e, parse tokens length = .ok e :=
      exists_parse_eq_ok_iff.mpr sentence
    obtain ⟨d, same, greedy, _⟩ := exists_derivation_of_parse parsed
    refine ⟨d, ⟨same, greedy⟩, ?_⟩
    rintro other ⟨same', greedy'⟩
    exact Derivation.eq_of_symbols_eq greedy' greedy (same'.trans same.symm)
  · rintro ⟨d, ⟨same, _⟩, _⟩
    exact ⟨d, same⟩
  · simpa only [and_assoc] using parse_eq_ok_iff

end Arithmetization.Strict
