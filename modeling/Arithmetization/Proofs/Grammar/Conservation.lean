import Arithmetization.Proofs.Grammar.Nesting
import Arithmetization.Proofs.Grammar.Size

/-! # Reading conserves symbols

A symbol that the permissive reader takes is written into the expression, or it opens a parenthesis
where a term begins, or it closes the innermost parenthesis. Which of these it does depends on what
the reader has before it and not on the symbol alone: any symbol but an operator may close a
parenthesis, and a parenthesis may be bound by a quantifier or stand as an atom.

The expression has exactly the written symbols, in their order. The others are the parentheses that
were opened and at most one symbol more for each of them, since only what is open can be closed. The
strict grammar leaves out the parentheses and nothing else.
-/

namespace Arithmetization

open Reader

/-! ## The symbols that a reader holds -/

/-- The symbols that a reader has read since its last frame began. -/
def Phase.flatten : Phase → List Symbol
  | term => []
  | bound q => [.quantifier q]
  | after e => e.flatten

/-- The symbols that a reader holds, in written order. -/
def Reader.flatten (reader : Reader) : List Symbol :=
  gather Frame.flatten reader.pending ++ reader.phase.flatten

namespace Permissive

/-- What becomes of a symbol that is taken. -/
inductive Role where
  /-- It is written into the expression. -/
  | written
  /-- It opens a parenthesis where a term begins. -/
  | opening
  /-- It closes the innermost parenthesis, whatever symbol it is. -/
  | closing
deriving DecidableEq, Repr

/-- The role of a symbol by what a reader has before it. -/
def role : Phase → Symbol → Role
  | .term, .opening => .opening
  | .after _, .operator _ => .written
  | .after _, _ => .closing
  | _, _ => .written

/-- The symbols that a reader takes, each with its role. -/
def roles (reader : Reader) : List Symbol → List (Symbol × Role)
  | [] => []
  | symbol :: rest =>
    match step reader symbol with
    | some next => (symbol, role reader.phase symbol) :: roles next rest
    | none => []

/-- The symbols that play a role. -/
def playing (r : Role) (entries : List (Symbol × Role)) : List Symbol :=
  (entries.filter fun entry => entry.2 = r).map Prod.fst

@[simp] theorem playing_cons (r r' : Role) (symbol : Symbol) (entries : List (Symbol × Role)) :
    playing r ((symbol, r') :: entries) =
      if r' = r then symbol :: playing r entries else playing r entries := by
  by_cases same : r' = r <;> simp [playing, same]

variable {reader next : Reader} {symbol : Symbol}

/-! ## Steps -/

/-- What a step with a symbol of a role does to the symbols that a reader holds and to the
parentheses that it has open. -/
inductive Accounts (reader : Reader) (symbol : Symbol) (next : Reader) : Role → Prop where
  | written (flat : next.flatten = reader.flatten ++ [symbol])
    (level : next.level = reader.level) : Accounts reader symbol next .written
  | opening (flat : next.flatten = reader.flatten)
    (level : next.level = reader.level + 1) : Accounts reader symbol next .opening
  | closing (flat : next.flatten = reader.flatten)
    (level : next.level + 1 = reader.level) : Accounts reader symbol next .closing

theorem accounts_step (taken : step reader symbol = some next) :
    Accounts reader symbol next (role reader.phase symbol) := by
  obtain ⟨phase, pending⟩ := reader
  cases phase with
  | term =>
    cases symbol with
    | opening =>
      obtain rfl := Option.some.inj taken
      refine .opening ?_ ?_ <;>
        simp [Reader.flatten, gather, Frame.flatten, Phase.flatten, level]
    | _ =>
      obtain rfl := Option.some.inj taken
      refine .written ?_ ?_ <;>
        simp [Reader.flatten, gather, Frame.flatten, Phase.flatten, Expression.flatten, level]
  | bound q =>
    obtain rfl := Option.some.inj taken
    refine .written ?_ ?_ <;>
      simp [Reader.flatten, gather, Frame.flatten, Phase.flatten, level]
  | after e =>
    have closing (closes : afterParenthesis? pending e = some next) :
        Accounts ⟨.after e, pending⟩ symbol next .closing := by
      obtain ⟨outer, inner, closed, rfl⟩ := exists_close_of_afterParenthesis? closes
      have same := gathers_flatten.fills (fills_close pending e)
      have counted := Strict.count_close pending e
      rw [closed] at same counted
      refine .closing ?_ (List.count_cons_self.symm.trans counted)
      simpa only [Reader.flatten, Phase.flatten, gather, Frame.flatten, List.append_nil] using same
    cases symbol with
    | operator op =>
      obtain rfl := Option.some.inj taken
      have same := gathers_flatten.fills (fills_settle pending e)
      refine .written ?_ ?_
      · simp only [Reader.flatten, Phase.flatten, ← same]
        simp [afterOperator, gather, Frame.flatten]
      · simp [level, afterOperator, Strict.count_settle]
    | _ => exact closing taken

/-- The end of the text adds a missing atom at most, which has no symbol. -/
theorem flatten_finish (reader : Reader) : (finish reader).flatten = reader.flatten := by
  obtain ⟨phase, pending⟩ := reader
  cases phase <;> exact gathers_flatten.closeAll pending _

/-! ## Runs -/

/-- The symbols with a role are those that are taken; the others are left over. -/
theorem map_roles_append (reader : Reader) (symbols : List Symbol) :
    (roles reader symbols).map Prod.fst ++ (advance step reader symbols).2 = symbols := by
  induction symbols generalizing reader with
  | nil => rfl
  | cons symbol rest ih =>
    rw [roles, advance]
    cases taken : step reader symbol with
    | none => rfl
    | some next => exact congrArg (symbol :: ·) (ih next)

/-- A run adds the written symbols to those that a reader holds, opens a parenthesis with each
opening symbol and closes one with each closing symbol. -/
theorem accounts_advance (reader : Reader) (symbols : List Symbol) :
    (advance step reader symbols).1.flatten =
        reader.flatten ++ playing .written (roles reader symbols) ∧
      (advance step reader symbols).1.level + (playing .closing (roles reader symbols)).length =
        reader.level + (playing .opening (roles reader symbols)).length := by
  induction symbols generalizing reader with
  | nil => exact ⟨(List.append_nil _).symm, rfl⟩
  | cons symbol rest ih =>
    rw [roles, advance]
    cases taken : step reader symbol with
    | none => exact ⟨(List.append_nil _).symm, rfl⟩
    | some next =>
      obtain ⟨flat, level⟩ := ih next
      have accounts := accounts_step taken
      dsimp only
      generalize role reader.phase symbol = r at accounts
      cases accounts with
      | written flat' level' =>
        simp only [playing_cons, if_true, reduceCtorEq, if_false]
        rw [flat, flat', level, level', List.append_assoc]
        exact ⟨rfl, rfl⟩
      | opening flat' level' =>
        simp only [playing_cons, if_true, reduceCtorEq, if_false, List.length_cons]
        rw [flat, flat', level, level', Nat.add_right_comm]
        exact ⟨rfl, rfl⟩
      | closing flat' level' =>
        simp only [playing_cons, if_true, reduceCtorEq, if_false, List.length_cons]
        rw [flat, flat', ← level', ← Nat.add_assoc, level, Nat.add_right_comm]
        exact ⟨rfl, rfl⟩

/-- Every symbol has exactly one role. -/
theorem length_playing (entries : List (Symbol × Role)) :
    (playing .written entries).length + (playing .opening entries).length +
      (playing .closing entries).length = entries.length := by
  induction entries with
  | nil => rfl
  | cons entry entries ih =>
    obtain ⟨symbol, r⟩ := entry
    cases r <;> simp <;> omega

theorem playing_sublist (r : Role) (entries : List (Symbol × Role)) :
    (playing r entries).Sublist (entries.map Prod.fst) :=
  List.filter_sublist.map Prod.fst

/-! ## Whole texts -/

section

variable (symbols : List Symbol)

theorem consumed_eq_length_roles : (parse symbols).consumed = (roles start symbols).length := by
  have length := congrArg List.length (map_roles_append start symbols)
  rw [List.length_append, List.length_map] at length
  rw [parse_eq_of_advance rfl, ← length, Nat.add_sub_cancel]

theorem map_roles_start :
    (roles start symbols).map Prod.fst = symbols.take (parse symbols).consumed := by
  have taken : (roles start symbols).map Prod.fst <+: symbols := ⟨_, map_roles_append start symbols⟩
  rw [consumed_eq_length_roles, ← List.length_map Prod.fst]
  exact List.prefix_iff_eq_take.mp taken

theorem flatten_root_parse :
    (parse symbols).root.flatten = playing .written (roles start symbols) := by
  change (finish (advance step start symbols).1).flatten = _
  rw [flatten_finish, (accounts_advance start symbols).1]
  rfl

/-- Only what is open can be closed. -/
theorem length_closing_le :
    (playing .closing (roles start symbols)).length ≤
      (playing .opening (roles start symbols)).length := by
  have level := (accounts_advance start symbols).2
  have none : start.level = 0 := rfl
  omega

end

end Permissive

namespace Strict

/-- The tree of a derivation has all its symbols but the parentheses. -/
theorem Derivation.flatten_tree {c : Category} (d : Derivation c) :
    d.tree.flatten = bare d.symbols := by
  induction d with
  | single t ih => exact ih
  | chain left op right ihLeft ihRight =>
    rw [symbols, bare_append, ← ihLeft]
    exact congrArg (left.tree.flatten ++ .operator op :: ·) ihRight
  | parenthesized inner ih =>
    calc
      inner.tree.flatten = bare inner.symbols ++ bare [.closing] :=
        ih.trans (List.append_nil _).symm
      _ = bare (inner.symbols ++ [.closing]) := (bare_append inner.symbols [.closing]).symm
  | negation operand ih => exact congrArg (.negation :: ·) ih
  | successor operand ih => exact congrArg (.successor :: ·) ih
  | quantified q v body ih => exact congrArg (.quantifier q :: .letter v :: ·) ih
  | zero => rfl
  | letter v => rfl

theorem flatten_of_parse {tokens : List Token} {length : Nat} {e : Expression}
    (accepted : parse tokens length = .ok e) : e.flatten = bare (tokens.map Token.symbol) := by
  obtain ⟨d, same, _, rfl⟩ := exists_derivation_of_parse accepted
  rw [d.flatten_tree, same]

end Strict

open Permissive

/-- Nothing is lost, invented or moved in reading. The symbols of the permissively read expression
are those consumed symbols that are written into it, in their order; of the others, as many open a
parenthesis where a term begins, and no more than these close one. The expression of a text that
the strict grammar accepts has all its symbols but the parentheses. -/
theorem reading_conserves_symbols :
    (∀ symbols : List Symbol,
      let parsed := Permissive.parse symbols
      let entries := roles start symbols
      let openings := (playing .opening entries).length
      entries.map Prod.fst = symbols.take parsed.consumed ∧
      parsed.root.flatten = playing .written entries ∧
      parsed.root.flatten.Sublist (symbols.take parsed.consumed) ∧
      (playing .closing entries).length ≤ openings ∧
      openings ≤ parsed.consumed - parsed.root.flatten.length ∧
      parsed.consumed - parsed.root.flatten.length ≤ 2 * openings) ∧
    ∀ tokens length e, Strict.parse tokens length = .ok e →
      e.flatten = bare (tokens.map Token.symbol) := by
  refine ⟨fun symbols => ?_, fun tokens length e accepted => Strict.flatten_of_parse accepted⟩
  intro parsed entries openings
  have taken : entries.map Prod.fst = symbols.take parsed.consumed := map_roles_start symbols
  have written : parsed.root.flatten = playing .written entries := flatten_root_parse symbols
  have sublist := playing_sublist .written entries
  rw [taken, ← written] at sublist
  have closings : (playing .closing entries).length ≤ openings := length_closing_le symbols
  have consumed : parsed.consumed = entries.length := consumed_eq_length_roles symbols
  rw [← length_playing, ← written] at consumed
  refine ⟨taken, written, sublist, closings, ?_, ?_⟩ <;> omega

/-- In `((xy+∀(S0` the letter `y` closes one of two parentheses and a third one is bound, so three
of nine symbols are missing from the expression. The sentence `∀x(Sx=(0))` loses its parentheses. -/
theorem reading_conserves_symbols_bound :
    let sum : List Symbol := [.letter .x, .operator .addition, .quantifier .universal, .opening,
      .successor, .zero]
    let symbols : List Symbol := [.opening, .opening, .letter .x, .letter .y] ++ sum.tail
    let sentence : Expression := .quantified .universal (some (.letter .x))
      (.binary .equality (.successor (.atom (some (.letter .x)))) (.atom (some .zero)))
    (Permissive.parse symbols).root.flatten = sum ∧ (Permissive.parse symbols).consumed = 9 ∧
      sum.Sublist (symbols.take 9) ∧
      Strict.parse (Token.scan "∀x(Sx=(0))") 10 = .ok sentence ∧
      sentence.flatten = bare ((Token.scan "∀x(Sx=(0))").map Token.symbol) := by
  intro sum symbols sentence
  have written : (Permissive.parse symbols).root.flatten = sum := by decide
  have consumed : (Permissive.parse symbols).consumed = 9 := by decide
  have accepted : Strict.parse (Token.scan "∀x(Sx=(0))") 10 = .ok sentence := rfl
  obtain ⟨_, _, sublist, _⟩ := reading_conserves_symbols.1 symbols
  rw [written, consumed] at sublist
  exact ⟨written, consumed, sublist, accepted, reading_conserves_symbols.2 _ _ _ accepted⟩

end Arithmetization
