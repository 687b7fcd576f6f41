import Arithmetization.Proofs.Grammar.Placeholders
import Arithmetization.Proofs.Grammar.Viability

/-! # Agreement of the two grammars

The permissive step takes whatever the strict step takes, and with the same result. So a strict run
is a permissive run: a formula that the strict grammar accepts has one expression under both, and
where the strict reader stops the permissive reader has come at least as far. Nothing is said about
the expression of a text that the strict grammar refuses.
-/

namespace Arithmetization

open Reader

/-! ## Strict runs are permissive runs -/

/-- The strict step is a restriction of the permissive step. -/
theorem Permissive.step_of_strict {reader next : Reader} {symbol : Symbol}
    (taken : Strict.step reader symbol = some next) :
    Permissive.step reader symbol = some next := by
  obtain ⟨phase, pending⟩ := reader
  cases phase with
  | term =>
    cases symbol with
    | operator op => contradiction
    | closing => contradiction
    | _ => exact taken
  | bound q =>
    cases symbol with
    | letter v => exact taken
    | _ => contradiction
  | after e =>
    cases symbol with
    | operator op => exact taken
    | closing => exact taken
    | _ => contradiction

theorem Permissive.run_of_strict {reader last : Reader} {symbols : List Symbol}
    (run : symbols.foldlM Strict.step reader = some last) :
    symbols.foldlM Permissive.step reader = some last := by
  induction symbols generalizing reader with
  | nil => exact run
  | cons symbol rest ih =>
    obtain ⟨next, taken, run⟩ := Option.bind_eq_some_iff.mp run
    rw [List.foldlM_cons, Permissive.step_of_strict taken]
    exact ih run

/-- An expression that the strict reader may end with is the one that the permissive reader ends
with. -/
theorem Permissive.finish_of_strict {reader : Reader} {e : Expression}
    (finished : Strict.finish? reader = some e) : Permissive.finish reader = e := by
  obtain ⟨phase, pending⟩ := reader
  cases phase with
  | term => contradiction
  | bound q => contradiction
  | after last =>
    change closeAll pending last = e
    rw [← closeAll_close]
    unfold Strict.finish? at finished
    dsimp only at finished
    split at finished
    · next whole closed =>
      rw [closed]
      exact Option.some.inj finished
    · contradiction

namespace Strict

/-- A text is refused at an index: the tokens before the index begin a sentence, and either the
token there has no place after them or there is no further token and more would have to come. -/
inductive RefusedAt (tokens : List Token) (length : Nat) : Nat → GrammarError → Prop where
  | token (k : Nat) (token : Token) (found : tokens[k]? = some token)
      (before : IsViable ((tokens.take k).map Token.symbol))
      (offends : ¬ IsViable ((tokens.take (k + 1)).map Token.symbol)) :
      RefusedAt tokens length k (.unexpectedToken token.symbol token.start)
  | ending (begins : IsViable (tokens.map Token.symbol))
      (incomplete : ¬ IsSentence (tokens.map Token.symbol)) :
      RefusedAt tokens length tokens.length (.unexpectedEnd length)

theorem exists_refusedAt_of_parse {tokens : List Token} {length : Nat} {error : GrammarError}
    (refused : parse tokens length = .error error) : ∃ k, RefusedAt tokens length k error := by
  cases firstOffence_of_parse refused with
  | token k token found before offends => exact ⟨k, .token k token found before offends⟩
  | ending rest proper begins incomplete =>
    exact ⟨tokens.length, .ending ⟨rest, begins⟩ incomplete⟩

/-- The permissive reader takes every viable beginning of a text. -/
theorem length_le_consumed_of_viable {symbols : List Symbol} (viable : IsViable symbols)
    (rest : List Symbol) :
    symbols.length ≤ (Permissive.parse (symbols ++ rest)).consumed := by
  obtain ⟨reader, run⟩ := isViable_iff_run.mp viable
  exact Permissive.length_le_consumed (Permissive.run_of_strict run) rest

theorem RefusedAt.le_consumed {tokens : List Token} {length k : Nat} {error : GrammarError}
    (refused : RefusedAt tokens length k error) :
    k ≤ (Permissive.parse (tokens.map Token.symbol)).consumed := by
  cases refused with
  | token k token found before offends =>
    have reached := length_le_consumed_of_viable before ((tokens.drop k).map Token.symbol)
    have inside : k < tokens.length := (List.getElem?_eq_some_iff.mp found).1
    rw [← List.map_append, List.take_append_drop, List.length_map, List.length_take] at reached
    omega
  | ending begins incomplete =>
    have reached := length_le_consumed_of_viable begins []
    rwa [List.append_nil, List.length_map] at reached

/-- What the strict grammar accepts is read alike by the permissive grammar. -/
theorem permissive_parse_of_parse {tokens : List Token} {length : Nat} {e : Expression}
    (accepted : parse tokens length = .ok e) :
    Permissive.parse (tokens.map Token.symbol) = ⟨e, tokens.length⟩ := by
  obtain ⟨reader, e', run, finished, result⟩ | ⟨_, _, _, result⟩ | ⟨_, _, _, _, _, _, _, result⟩ :=
    parse_cases tokens length
  · obtain rfl : e' = e := Except.ok.inj (result.symm.trans accepted)
    rw [Permissive.parse_eq_of_run (Permissive.run_of_strict run),
      Permissive.finish_of_strict finished, List.length_map]
  · rw [result] at accepted
    contradiction
  · rw [result] at accepted
    contradiction

/-- The two grammars agree as far as the strict one gets: a text that it accepts is read to its end
as the same expression, and a text that it refuses is read at least up to the refused token. -/
theorem permissive_agrees (tokens : List Token) (length : Nat) :
    (∀ e, parse tokens length = .ok e →
      Permissive.parse (tokens.map Token.symbol) = ⟨e, tokens.length⟩) ∧
    ∀ error, parse tokens length = .error error →
      (∃ k, RefusedAt tokens length k error) ∧
      ∀ k, RefusedAt tokens length k error →
        k ≤ (Permissive.parse (tokens.map Token.symbol)).consumed := by
  refine ⟨fun e accepted => permissive_parse_of_parse accepted, fun error refused => ⟨?_, ?_⟩⟩
  · exact exists_refusedAt_of_parse refused
  · intro k refusedAt
    exact refusedAt.le_consumed

/-- A quantifier body that swallows the rest is read alike; past a parenthesis that the strict
grammar leaves open, the permissive reader takes the refused token as its end. -/
theorem permissive_agrees_unclosed :
    Permissive.parse ((Token.scan "∀x x=S0").map Token.symbol) =
        ⟨.quantified .universal (some (.letter .x)) (.binary .equality (.atom (some (.letter .x)))
          (.successor (.atom (some .zero)))), 6⟩ ∧
      ∃ k, RefusedAt (Token.scan "(x y") 4 k (.unexpectedToken (.letter .y) 3) ∧
        k ≤ (Permissive.parse ((Token.scan "(x y").map Token.symbol)).consumed := by
  have accepted : parse (Token.scan "∀x x=S0") 7 =
      .ok (.quantified .universal (some (.letter .x)) (.binary .equality (.atom (some (.letter .x)))
        (.successor (.atom (some .zero))))) := rfl
  have refused : parse (Token.scan "(x y") 4 = .error (.unexpectedToken (.letter .y) 3) := rfl
  obtain ⟨⟨k, refusedAt⟩, reached⟩ := (permissive_agrees _ _).2 _ refused
  exact ⟨(permissive_agrees _ _).1 _ accepted, k, refusedAt, reached k refusedAt⟩

end Strict

end Arithmetization
