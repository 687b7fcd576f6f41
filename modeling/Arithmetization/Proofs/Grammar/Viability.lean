import Arithmetization.Proofs.Grammar.Recognition
import Arithmetization.Proofs.Scanning

/-! # Viable beginnings and the error that is reported

Whatever the reader has taken can be completed to a sentence: the constructs that are still open
are closed from the inside. With the completeness of the reader this makes the viable lists exactly
the lists that it takes, and the token that it refuses is the first one that no sentence allows.
-/

namespace Arithmetization.Strict

open Reader

variable {c : Category}

theorem IsViable.shorten {symbols longer : List Symbol} (shorter : symbols <+: longer)
    (viable : IsViable longer) : IsViable symbols := by
  obtain ⟨rest, rfl⟩ := shorter
  obtain ⟨more, sentence⟩ := viable
  exact ⟨rest ++ more, by simpa using sentence⟩

theorem IsSentence.viable {symbols : List Symbol} (sentence : IsSentence symbols) :
    IsViable symbols := ⟨[], by simpa using sentence⟩

/-- Some phrase of each category. -/
def Derivation.zeroPhrase (c : Category) : Derivation c := .ofTerm c .zero

/-- Open constructs are completed by any phrase of the category that they wait for and by what
completes the constructs around them. -/
theorem Opened.viable {pending : List Frame} {before : List Symbol}
    (opened : Opened c pending before) (d : Derivation c) : IsViable (before ++ d.symbols) := by
  induction opened with
  | start => exact IsSentence.viable ⟨d, rfl⟩
  | @parenthesis c' _ _ outer ih =>
    have completed := ih (.ofTerm c' (.parenthesized d))
    rw [Derivation.symbols_ofTerm, Derivation.symbols] at completed
    exact completed.shorten ⟨[.closing], by simp⟩
  | @body c' _ _ outer q v ih =>
    simpa [Derivation.symbols] using ih (.ofTerm c' (.quantified q v d))
  | @negation c' _ _ outer ih =>
    simpa [Derivation.symbols] using ih (.ofTerm c' (.negation d))
  | @successor c' _ _ outer ih =>
    simpa [Derivation.symbols] using ih (.ofTerm c' (.successor d))
  | operand outer left op greedy closed ih =>
    simpa [Derivation.symbols] using ih (.chain left op d)

/-- What a reader has read is the beginning of a sentence. -/
theorem Reads.viable {reader : Reader} {before : List Symbol} (reads : Reads reader before) :
    IsViable before := by
  cases reads with
  | @term c _ _ opened => exact (opened.viable (.zeroPhrase c)).shorten (List.prefix_append _ _)
  | @bound c _ before opened q =>
    have completed := opened.viable (.ofTerm c (.quantified q .x (.zeroPhrase .expression)))
    rw [Derivation.symbols_ofTerm, Derivation.symbols] at completed
    exact completed.shorten ⟨_, List.append_assoc before [.quantifier q] _⟩
  | @after c _ _ opened t =>
    simpa using opened.viable (.ofTerm c t)

/-- The viable lists are the lists that the reader takes. -/
theorem isViable_iff_run {symbols : List Symbol} :
    IsViable symbols ↔ ∃ reader, symbols.foldlM step start = some reader := by
  constructor
  · rintro ⟨rest, sentence⟩
    obtain ⟨_, _, run, _⟩ := isSentence_iff_run.mp sentence
    rw [List.foldlM_append] at run
    obtain ⟨reader, run, _⟩ := Option.bind_eq_some_iff.mp run
    exact ⟨reader, run⟩
  · rintro ⟨reader, run⟩
    exact ((Reads.term .start).run run).viable

/-- The first offence of a text of the given length against the grammar. -/
inductive FirstOffence (tokens : List Token) (length : Nat) : GrammarError → Prop where
  /-- The tokens before index `k` begin a sentence, the tokens up to and including it do not. -/
  | token (k : Nat) (token : Token) (found : tokens[k]? = some token)
      (before : IsViable ((tokens.take k).map Token.symbol))
      (offends : ¬ IsViable ((tokens.take (k + 1)).map Token.symbol)) :
      FirstOffence tokens length (.unexpectedToken token.symbol token.start)
  /-- All tokens together are a proper beginning of a sentence and no sentence. -/
  | ending (rest : List Symbol) (proper : rest ≠ [])
      (begins : IsSentence (tokens.map Token.symbol ++ rest))
      (incomplete : ¬ IsSentence (tokens.map Token.symbol)) :
      FirstOffence tokens length (.unexpectedEnd length)

/-- A text has at most one first offence, since the beginnings of a viable list are viable. -/
theorem FirstOffence.unique {tokens : List Token} {length : Nat} {error error' : GrammarError}
    (offence : FirstOffence tokens length error) (offence' : FirstOffence tokens length error') :
    error = error' := by
  have shorter (k l : Nat) (le : k ≤ l) (viable : IsViable ((tokens.take l).map Token.symbol)) :
      IsViable ((tokens.take k).map Token.symbol) :=
    viable.shorten ((List.take_prefix_take_left le).map Token.symbol)
  have whole (k : Nat) (viable : IsViable (tokens.map Token.symbol)) :
      IsViable ((tokens.take k).map Token.symbol) :=
    viable.shorten ((List.take_prefix k tokens).map Token.symbol)
  cases offence with
  | token k token found before offends =>
    cases offence' with
    | token l other found' before' offends' =>
      rcases Nat.lt_trichotomy k l with less | rfl | less
      · exact (offends (shorter (k + 1) l less before')).elim
      · obtain rfl : token = other := Option.some.inj (found.symm.trans found')
        rfl
      · exact (offends' (shorter (l + 1) k less before)).elim
    | ending rest proper begins incomplete => exact (offends (whole (k + 1) ⟨rest, begins⟩)).elim
  | ending rest proper begins incomplete =>
    cases offence' with
    | token k token found before offends => exact (offends (whole (k + 1) ⟨rest, begins⟩)).elim
    | ending => rfl

theorem firstOffence_of_parse {tokens : List Token} {length : Nat} {error : GrammarError}
    (refused : parse tokens length = .error error) : FirstOffence tokens length error := by
  have incomplete : ¬ IsSentence (tokens.map Token.symbol) := by
    intro sentence
    obtain ⟨e, parsed⟩ : ∃ e, parse tokens length = .ok e :=
      exists_parse_eq_ok_iff.mpr sentence
    rw [refused] at parsed
    contradiction
  obtain ⟨_, _, _, _, result⟩ | ⟨reader, run, unfinished, result⟩ |
    ⟨before, token, after, reader, split, run, rejected, result⟩ := parse_cases tokens length
  · rw [result] at refused
    contradiction
  · obtain rfl : .unexpectedEnd length = error := Except.error.inj (result.symm.trans refused)
    obtain ⟨rest, begins⟩ := isViable_iff_run.mpr ⟨reader, run⟩
    refine .ending rest ?_ begins incomplete
    rintro rfl
    exact incomplete (by simpa using begins)
  · obtain rfl : .unexpectedToken token.symbol token.start = error :=
      Except.error.inj (result.symm.trans refused)
    subst split
    refine .token before.length token (by simp) ?_ ?_
    · simpa using isViable_iff_run.mpr ⟨reader, run⟩
    · intro viable
      obtain ⟨last, run'⟩ := isViable_iff_run.mp viable
      have stops : (before.map Token.symbol ++ [token.symbol]).foldlM step start = none :=
        foldlM_step_eq_none run rejected
      rw [List.take_length_add_append, List.take_succ_cons, List.take_zero, List.map_append,
        List.map_singleton, stops] at run'
      contradiction

/-- A refused text has a first offence, and no text that is read has one. -/
theorem parse_eq_error_iff {tokens : List Token} {length : Nat} {error : GrammarError} :
    parse tokens length = .error error ↔ FirstOffence tokens length error := by
  constructor
  · exact firstOffence_of_parse
  · intro offence
    cases parsed : parse tokens length with
    | error error' => rw [offence.unique (firstOffence_of_parse parsed)]
    | ok e =>
      have sentence : IsSentence (tokens.map Token.symbol) :=
        exists_parse_eq_ok_iff.mp ⟨e, parsed⟩
      cases offence with
      | ending rest proper begins incomplete => exact (incomplete sentence).elim
      | token k token found before offends =>
        have viable := sentence.viable.shorten ((List.take_prefix (k + 1) tokens).map Token.symbol)
        exact (offends viable).elim

/-- A formula has an expression if its symbols are a sentence. -/
theorem exists_parseFormula_iff {formula : String} :
    (∃ e, parseFormula formula = .ok e) ↔ IsSentence (symbolsOf formula) := by
  rw [← Token.map_symbol_scan]
  exact exists_parse_eq_ok_iff

/-- The position of an error is that of a character of the found symbol, or the end of the
formula. -/
inductive PointsInto (formula : String) : GrammarError → Prop where
  | character (found : Symbol) (position : Nat) (inside : position < formula.length)
      (holds : formula.toList[position]? = some found.char) :
      PointsInto formula (.unexpectedToken found position)
  | ending : PointsInto formula (.unexpectedEnd formula.length)

theorem pointsInto_of_parseFormula {formula : String} {error : GrammarError}
    (refused : parseFormula formula = .error error) : PointsInto formula error := by
  cases firstOffence_of_parse refused with
  | token k token found before offends =>
    have holds := (Token.mem_scan_iff.mp (List.mem_of_getElem? found)).1
    obtain ⟨inside, _⟩ := List.getElem?_eq_some_iff.mp holds
    rw [String.length_toList] at inside
    exact .character token.symbol token.start inside holds
  | ending => exact .ending

/-- A text is refused with exactly its first offence, which for a formula names a place of the
formula. -/
theorem refused_at_first_offence :
    (∀ tokens length error, parse tokens length = .error error ↔
      FirstOffence tokens length error) ∧
    ∀ formula error, parseFormula formula = .error error → PointsInto formula error :=
  ⟨fun _ _ _ => parse_eq_error_iff, fun _ _ => pointsInto_of_parseFormula⟩

/-- The position of a refused token counts the characters that were skipped before it. -/
theorem refused_at_first_offence_gap :
    FirstOffence (Token.scan "x # y") 5 (.unexpectedToken (.letter .y) 4) ∧
      PointsInto "x # y" (.unexpectedToken (.letter .y) 4) := by
  have refused : parseFormula "x # y" = .error (.unexpectedToken (.letter .y) 4) := rfl
  exact ⟨(refused_at_first_offence.1 _ _ _).mp refused, refused_at_first_offence.2 _ _ refused⟩

end Arithmetization.Strict
