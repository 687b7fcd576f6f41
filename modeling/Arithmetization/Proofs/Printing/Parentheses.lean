import Arithmetization.Proofs.Grammar.Agreement
import Arithmetization.Proofs.Grammar.Operands
import Arithmetization.Proofs.Printing.PermissiveRoundTrip
import Arithmetization.Proofs.Printing.Sites

/-! # Printed parentheses are minimal

Deleting a matching pair of parentheses from a printed expression leaves a sentence, and its tree is
another one unless the pair encloses the binary body of a quantifier.

Without the parentheses around an operand, the sign or operator before them takes no more than the
leftmost operand in them, and does so before the next operator. Without those around a quantifier,
its body goes on past the operator that follows. In both cases an operator gets another left operand
than before, after the same ones before it, and so the whole tree is another one. A body without its
parentheses ends where it did, since no operator follows.
-/

namespace Arithmetization

open Expression Reader

theorem Reader.nodeCount_le_settle (pending : List Frame) (e : Expression) :
    e.nodeCount ≤ (settle pending e).2.nodeCount := by
  have filled := (fills_settle pending e).preserves
    (motive := fun whole => e.nodeCount ≤ whole.nodeCount)
  refine filled (fun frame _ part le => ?_) (Nat.le_refl _)
  rw [Frame.nodeCount_fill]
  omega

variable {before inner after symbols rest : List Symbol} {pending : List Frame}
  {e part : Expression}

/-! ## What comes before a parenthesis -/

namespace Strict

/-- A parenthesis is opened only where a term begins. -/
theorem exists_run_of_opening (sentence : IsSentence (before ++ .opening :: rest)) :
    ∃ pending, before.foldlM step start = some ⟨.term, pending⟩ := by
  obtain ⟨last, e, run, _⟩ := isSentence_iff_run.mp sentence
  rw [List.foldlM_append] at run
  obtain ⟨⟨phase, pending⟩, run, others⟩ := Option.bind_eq_some_iff.mp run
  cases phase with
  | term => exact ⟨pending, run⟩
  | _ => contradiction

/-- A sign that takes a term makes an operand larger before an operator takes it. -/
theorem nodeCount_lt_settle {reader next : Reader} {sign : Symbol} (takes : sign.takesTerm = true)
    (taken : step reader sign = some next) (e : Expression) :
    e.nodeCount < (settle next.pending e).2.nodeCount := by
  obtain ⟨phase, pending⟩ := reader
  cases sign with
  | negation =>
    cases phase with
    | term =>
      obtain rfl := Option.some.inj taken
      exact nodeCount_le_settle pending (.negation e)
    | _ => contradiction
  | successor =>
    cases phase with
    | term =>
      obtain rfl := Option.some.inj taken
      exact nodeCount_le_settle pending (.successor e)
    | _ => contradiction
  | operator op =>
    cases phase with
    | after last =>
      obtain rfl := Option.some.inj taken
      simp only [afterOperator, settle, Expression.nodeCount]
      omega
    | _ => contradiction
  | _ => contradiction

/-- A bound letter is followed by the body of its quantifier. -/
theorem exists_body_of_run {reader : Reader} {q : Quantifier} {v : Letter}
    (run : (before ++ [Symbol.quantifier q, .letter v]).foldlM step start = some reader) :
    ∃ outer, reader = ⟨.term, .body q (some (.letter v)) :: outer⟩ := by
  rw [List.foldlM_append] at run
  obtain ⟨⟨phase, outer⟩, _, bound⟩ := Option.bind_eq_some_iff.mp run
  cases phase with
  | term => exact ⟨outer, (Option.some.inj bound).symm⟩
  | _ => contradiction

end Strict

/-! ## Reading without parentheses -/

namespace Permissive

/-- Symbols that are read as a term offer what the signs before that term make of it. -/
theorem ReadsAs.offers (run : before.foldlM step start = some ⟨.term, pending⟩)
    (reads : ReadsAs pending symbols e false) :
    Offers (before ++ symbols) (pendingOperands pending ++ e.leftOperands)
      (settle pending e).2 := by
  obtain ⟨inner, last, run', same⟩ := reads
  have settled : settle inner last = settle pending e := same
  refine ⟨inner, last, ?_, ?_, by rw [settled]⟩
  · rw [List.foldlM_append, run]
    exact run'
  · rw [← (fills_settle inner last).leftOperands, settled, (fills_settle pending e).leftOperands]

/-- A quantifier that is not in parentheses offers no more than a part of its body. -/
theorem exists_offers_quantified (q : Quantifier) (s : Symbol)
    (run : before.foldlM step start = some ⟨.term, pending⟩) (complete : part.Complete) :
    ∃ operand, Offers (before ++ (quantified q (some s) part).written true)
        (pendingOperands pending ++ part.leftOperands) operand ∧
      operand.nodeCount ≤ part.nodeCount := by
  -- The body is read as in a text of its own.
  obtain ⟨inner, last, alone, same⟩ := (isRead_of_complete complete).2 [] true
  have closed : close inner last = ([], part) := same
  have begins : BeginsExpression (.body q (some s) :: pending) := fun _ => rfl
  have within := run_append begins alone
  have settled := settle_append begins inner last
  refine ⟨(settle inner last).2, ⟨inner ++ .body q (some s) :: pending, last, ?_, ?_, ?_⟩, ?_⟩
  · rw [List.foldlM_append, run]
    exact within
  · have operands := (fills_close inner last).leftOperands
    rw [closed] at operands
    rw [pendingOperands_append, List.append_assoc, ← operands]
    simp [pendingOperands, Frame.leftOperands]
  · rw [settled]
  · have counted := (fills_close inner last).nodeCount
    have bounded := (fills_settle inner last).nodeCount
    rw [closed] at counted
    simp only [pendingCount] at counted
    omega

/-- A binary expression is printed as an operand that is not binary, an operator and the rest. -/
theorem exists_leftmost (binary : e.isBinary = true) (complete : e.Complete) (tail : Bool) :
    ∃ (first : Expression) (op : Operator) (rest : List Symbol), first.Complete ∧
      first.isBinary = false ∧
      e.written tail = first.written false ++ .operator op :: rest := by
  induction e generalizing tail with
  | binary op left right ihLeft _ =>
    cases nested : left.isBinary with
    | false => exact ⟨left, op, _, complete.1, nested, rfl⟩
    | true =>
      obtain ⟨first, op', rest, completeFirst, single, split⟩ := ihLeft nested complete.1 false
      refine ⟨first, op', rest ++ .operator op :: group right.isBinary tail right.written,
        completeFirst, single, ?_⟩
      rw [written, split, List.append_assoc, List.cons_append]
  | _ => contradiction

/-- A binary operand needs its parentheses. -/
theorem root_ne_operand (run : before.foldlM step start = some ⟨.term, pending⟩)
    (larger : ∀ e, e.nodeCount < (settle pending e).2.nodeCount) (binary : part.isBinary = true)
    (complete : part.Complete) (after : List Symbol) :
    (parse (before ++ (part.written true ++ after))).root ≠
      (parse (before ++ .opening :: (part.written true ++ .closing :: after))).root := by
  obtain ⟨first, op, rest, completeFirst, single, split⟩ := exists_leftmost binary complete true
  have reads (pending : List Frame) : ReadsAs pending (first.written false) first false := by
    have grouped := (isRead_of_complete completeFirst).2 pending false
    rwa [single] at grouped
  have opened : (before ++ [Symbol.opening]).foldlM step start =
      some ⟨.term, .parenthesis :: pending⟩ := foldlM_concat_eq_some_iff.mpr ⟨_, run, rfl⟩
  have without := (reads pending).offers run
  have inside : Offers (before ++ [.opening] ++ first.written false)
      (pendingOperands pending ++ first.leftOperands) first := by
    simpa [pendingOperands, Frame.leftOperands, settle] using
      (reads (.parenthesis :: pending)).offers opened
  have differ : (settle pending first).2 ≠ first := by
    intro same
    have less := larger first
    rw [same] at less
    exact Nat.lt_irrefl _ less
  have other := without.root_ne inside differ op op (rest ++ after) (rest ++ .closing :: after)
  rw [split]
  simpa using other

/-- A quantifier that an operator follows needs its parentheses. -/
theorem root_ne_followed (q : Quantifier) (s : Symbol)
    (run : before.foldlM step start = some ⟨.term, pending⟩)
    (complete : part.Complete) (op : Operator) (rest : List Symbol) :
    let symbols := (quantified q (some s) part).written true
    (parse (before ++ (symbols ++ .operator op :: rest))).root ≠
      (parse (before ++ .opening :: (symbols ++ .closing :: .operator op :: rest))).root := by
  intro symbols
  have completeWhole : (quantified q (some s) part).Complete := ⟨⟨s, rfl⟩, complete⟩
  obtain ⟨operand, without, smaller⟩ := exists_offers_quantified q s run complete
  have inside := ((isRead_of_complete completeWhole).2 pending false).offers run
  have differ : operand ≠ (settle pending (quantified q (some s) part)).2 := by
    intro same
    have larger := nodeCount_le_settle pending (quantified q (some s) part)
    rw [← same, Expression.nodeCount] at larger
    omega
  have other := without.root_ne inside differ op op rest rest
  simpa [symbols, group, isBinary, written, parenthesize] using other

/-- The binary body of a quantifier does not need its parentheses. -/
theorem root_eq_body (run : before.foldlM step start = some ⟨.term, pending⟩)
    (begins : BeginsExpression pending) (complete : part.Complete) (binary : part.isBinary = true)
    (stops : ∀ op, after.head? ≠ some (.operator op)) :
    (parse (before ++ (part.written true ++ after))).root =
      (parse (before ++ .opening :: (part.written true ++ .closing :: after))).root := by
  have reads := isRead_of_complete complete
  obtain ⟨frames, last, without, same⟩ := reads.1 pending true begins
  obtain ⟨frames', last', inside, same'⟩ := reads.2 pending true
  have ends : close frames last = close frames' last' := same.trans same'.symm
  have grouped : .opening :: (part.written true ++ .closing :: after) =
      group part.isBinary true part.written ++ after := by
    rw [binary]
    simp [group, parenthesize]
  rw [grouped, root_parse_append run, root_parse_append run, conclude_append without,
    conclude_append inside]
  exact conclude_congr ends stops

/-- Deleting the parentheses at a site keeps the tree exactly if they enclose a body. -/
theorem root_eq_iff_enclosesBody (site : Site e before inner after)
    (sentence : Strict.IsSentence (before ++ .opening :: (inner ++ .closing :: after))) :
    (parse (before ++ (inner ++ after))).root =
        (parse (before ++ .opening :: (inner ++ .closing :: after))).root ↔
      EnclosesBody e before inner := by
  obtain ⟨pending, run⟩ := Strict.exists_run_of_opening sentence
  have run' := run_of_strict run
  cases site with
  | @operand front sign part after takes binary wellFormed =>
    obtain ⟨middle, _, taken⟩ := foldlM_concat_eq_some_iff.mp run
    have other := root_ne_operand run' (Strict.nodeCount_lt_settle takes taken) binary
      wellFormed.complete after
    exact iff_of_false other (not_enclosesBody_operand front takes _)
  | @body front q v part after stands binary wellFormed stops =>
    obtain ⟨outer, body⟩ := Strict.exists_body_of_run run
    obtain ⟨rfl⟩ := body
    have same := root_eq_body run' (fun _ => rfl) wellFormed.complete binary stops
    exact iff_of_true same (enclosesBody_written front stands binary wellFormed)
  | @followed _ q v part op rest stands wellFormed =>
    have other := root_ne_followed q (.letter v) run' wellFormed.complete op rest
    exact iff_of_false other (not_enclosesBody_followed stands wellFormed)

end Permissive

namespace Strict

/-- Deleting a matching pair of parentheses from a printed expression leaves a formula, and it is
read as the same expression exactly if the pair encloses the binary body of a quantifier. -/
theorem parentheses_minimal (e : Expression) (wellFormed : e.WellFormed)
    (before inner after : String) (printed : e.text = before ++ "(" ++ inner ++ ")" ++ after)
    (matched : Balanced (symbolsOf inner)) :
    ∃ e', parseFormula (before ++ inner ++ after) = .ok e' ∧
      (e' = e ↔ e.EnclosesBody (symbolsOf before) (symbolsOf inner)) := by
  have symbols : e.written true = symbolsOf before ++
      .opening :: (symbolsOf inner ++ .closing :: symbolsOf after) := by
    rw [← symbolsOf_text, printed]
    simp only [symbolsOf_append, List.append_assoc]
    rfl
  have deleted : symbolsOf (before ++ inner ++ after) =
      symbolsOf before ++ (symbolsOf inner ++ symbolsOf after) := by
    simp only [symbolsOf_append, List.append_assoc]
  obtain ⟨d, spells⟩ := (isSpelled_of_wellFormed wellFormed).1 true
  have sentence : IsSentence (e.written true) := ⟨d, spells.symbols⟩
  have site := hasSites wellFormed true [] _ _ _ (by rintro op ⟨⟩) matched symbols
  rw [List.append_nil] at site
  obtain ⟨e', accepted⟩ : ∃ e', parseFormula (before ++ inner ++ after) = .ok e' := by
    rw [exists_parseFormula_iff, deleted]
    rw [symbols] at sentence
    exact sentence.delete_pair matched
  refine ⟨e', accepted, ?_⟩
  have root : (Permissive.parse (e.written true)).root = e :=
    Permissive.parse_of_complete wellFormed.complete
  have root' := congrArg Permissive.Parsed.root (permissive_parse_of_parse accepted)
  rw [Token.map_symbol_scan, deleted] at root'
  rw [symbols] at sentence root
  rw [← Permissive.root_eq_iff_enclosesBody site sentence, root, root']

/-- In `S(∀x (y = z)) + 0` the parentheses of the body may be left out, those of the quantifier may
not. -/
theorem parentheses_minimal_nested :
    let body : Expression :=
      .binary .equality (.atom (some (.letter .y))) (.atom (some (.letter .z)))
    let e : Expression := .binary .addition
      (.successor (.quantified .universal (some (.letter .x)) body)) (.atom (some .zero))
    parseFormula "S(∀x y = z) + 0" = .ok e ∧
      ∃ e', parseFormula "S∀x (y = z) + 0" = .ok e' ∧ e' ≠ e := by
  intro body e
  have wellFormedBody : body.WellFormed := ⟨.inr ⟨.y, rfl⟩, .inr ⟨.z, rfl⟩⟩
  have wellFormed : e.WellFormed := ⟨⟨⟨.x, rfl⟩, wellFormedBody⟩, .inl rfl⟩
  have stands : Stands e [.successor] (.quantified .universal (some (.letter .x)) body) :=
    .left _ _ (.successor (.root _))
  obtain ⟨e', accepted, same⟩ := parentheses_minimal e wellFormed "S(∀x " "y = z" ") + 0" rfl rfl
  obtain ⟨other, accepted', same'⟩ :=
    parentheses_minimal e wellFormed "S" "∀x (y = z)" " + 0" rfl rfl
  have encloses : e.EnclosesBody (symbolsOf "S(∀x ") (symbolsOf "y = z") :=
    enclosesBody_written [.successor, .opening] stands rfl wellFormedBody
  have not_encloses : ¬ e.EnclosesBody (symbolsOf "S") (symbolsOf "∀x (y = z)") :=
    not_enclosesBody_followed stands wellFormedBody
  obtain rfl := same.mpr encloses
  exact ⟨accepted, other, accepted', fun equal => not_encloses (same'.mp equal)⟩

end Strict

end Arithmetization
