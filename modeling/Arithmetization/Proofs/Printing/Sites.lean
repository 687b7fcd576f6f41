import Arithmetization.Proofs.Grammar.Nesting
import Arithmetization.Proofs.Grammar.Placeholders
import Arithmetization.Proofs.Printing.StrictRoundTrip

/-! # Where parentheses are printed

A printed expression has parentheses at three kinds of sites: around a binary operand, around the
binary body of a quantifier, and around a quantifier that an operator follows. `hasSites` finds the
site of any matching pair by following the printer.

Without parentheses the printed symbols are those of the expression, so what a pair encloses can
also be said without the printer: `EnclosesBody` compares the enclosed symbols, and those before
them, with a part of the expression and its place.
-/

namespace Arithmetization

/-- Whether a symbol takes the single term after it. -/
def Symbol.takesTerm : Symbol → Bool
  | negation => true
  | successor => true
  | operator _ => true
  | _ => false

namespace Expression

variable {e part : Expression} {front before inner after rest : List Symbol} {tail : Bool}

/-! ## Parts of an expression -/

/-- A part of an expression stands after the given symbols, parentheses apart. -/
inductive Stands : Expression → List Symbol → Expression → Prop where
  | root (e : Expression) : Stands e [] e
  | successor {operand part : Expression} {front : List Symbol}
      (stands : Stands operand front part) : Stands (successor operand) (.successor :: front) part
  | negation {operand part : Expression} {front : List Symbol}
      (stands : Stands operand front part) : Stands (negation operand) (.negation :: front) part
  | left (op : Operator) {left part : Expression} (right : Expression) {front : List Symbol}
      (stands : Stands left front part) : Stands (binary op left right) front part
  | right (op : Operator) (left : Expression) {right part : Expression} {front : List Symbol}
      (stands : Stands right front part) :
      Stands (binary op left right) (left.flatten ++ .operator op :: front) part
  | body (q : Quantifier) (bound : Option Symbol) {body part : Expression} {front : List Symbol}
      (stands : Stands body front part) :
      Stands (quantified q bound body) (.quantifier q :: (bound.toList ++ front)) part

/-- The parentheses before and after `inner` enclose a binary node that is the body of a
quantifier. -/
def EnclosesBody (e : Expression) (before inner : List Symbol) : Prop :=
  ∃ front q v body, Stands e front (quantified q (some (.letter v)) body) ∧ body.isBinary = true ∧
    bare before = front ++ [.quantifier q, .letter v] ∧ bare inner = body.flatten

/-- A part of a part is a part of the whole. -/
theorem Stands.trans {place : List Symbol} {target : Expression} (stands : Stands e front part)
    (within : Stands part place target) : Stands e (front ++ place) target := by
  induction stands with
  | root e => exact within
  | successor stands ih => exact .successor (ih within)
  | negation stands ih => exact .negation (ih within)
  | left op right stands ih => exact .left op right (ih within)
  | right op left stands ih =>
    rw [List.append_assoc]
    exact .right op left (ih within)
  | body q bound stands ih =>
    rw [List.cons_append, List.append_assoc]
    exact .body q bound (ih within)

theorem Stands.length_le (stands : Stands e front part) :
    front.length + part.flatten.length ≤ e.flatten.length := by
  induction stands with
  | root e => simp
  | successor stands ih => simp only [flatten, List.length_cons]; omega
  | negation stands ih => simp only [flatten, List.length_cons]; omega
  | left op right stands ih => simp only [flatten, List.length_append, List.length_cons]; omega
  | right op left stands ih => simp only [flatten, List.length_append, List.length_cons]; omega
  | body q bound stands ih => simp only [flatten, List.length_append, List.length_cons]; omega

/-- Two parts at one place are the same part if they have the same symbols. -/
theorem Stands.unique {front' : List Symbol} {part' : Expression} (stands : Stands e front part)
    (stands' : Stands e front' part') (place : front = front')
    (symbols : part.flatten = part'.flatten) : part = part' := by
  induction stands generalizing front' part' with
  | root e =>
    have length := stands'.length_le
    cases stands' with
    | root => rfl
    | left op right stands' =>
      have shorter := stands'.length_le
      rw [← symbols] at shorter
      simp only [flatten, List.length_append, List.length_cons] at shorter
      omega
    | right => simp at place
    | _ => contradiction
  | successor stands ih =>
    cases stands' with
    | root => contradiction
    | successor stands' => exact ih stands' (List.tail_eq_of_cons_eq place) symbols
  | negation stands ih =>
    cases stands' with
    | root => contradiction
    | negation stands' => exact ih stands' (List.tail_eq_of_cons_eq place) symbols
  | left op right stands ih =>
    have length := stands.length_le
    cases stands' with
    | root =>
      rw [symbols] at length
      simp only [flatten, List.length_append, List.length_cons] at length
      omega
    | left _ _ stands' => exact ih stands' place symbols
    | right _ left stands' =>
      rw [place] at length
      simp only [List.length_append, List.length_cons] at length
      omega
  | right op left stands ih =>
    cases stands' with
    | root => simp at place
    | left _ _ stands' =>
      have length := stands'.length_le
      rw [← place] at length
      simp only [List.length_append, List.length_cons] at length
      omega
    | right _ _ stands' =>
      exact ih stands' (List.tail_eq_of_cons_eq (List.append_cancel_left place)) symbols
  | body q bound stands ih =>
    cases stands' with
    | root => contradiction
    | body _ _ stands' =>
      exact ih stands' (List.append_cancel_left (List.tail_eq_of_cons_eq place)) symbols

/-! ## Printed expressions without their parentheses -/

theorem WellFormed.complete (wellFormed : e.WellFormed) : e.Complete := by
  induction e with
  | atom symbol =>
    obtain rfl | ⟨v, rfl⟩ := wellFormed
    · exact ⟨.zero, rfl, rfl⟩
    · exact ⟨.letter v, rfl, rfl⟩
  | successor operand ih => exact ih wellFormed
  | negation operand ih => exact ih wellFormed
  | binary op left right ihLeft ihRight => exact ⟨ihLeft wellFormed.1, ihRight wellFormed.2⟩
  | quantified q bound body ih =>
    obtain ⟨⟨v, rfl⟩, wellFormedBody⟩ := wellFormed
    exact ⟨⟨.letter v, rfl⟩, ih wellFormedBody⟩

theorem bare_parenthesize (symbols : List Symbol) : bare (parenthesize symbols) = bare symbols := by
  calc
    bare (parenthesize symbols) = bare (symbols ++ [.closing]) := rfl
    _ = bare symbols ++ [] := bare_append symbols [.closing]
    _ = bare symbols := List.append_nil _

theorem bare_group {written : Bool → List Symbol} {flat : List Symbol}
    (same : ∀ tail, bare (written tail) = flat) (isBinary tail : Bool) :
    bare (group isBinary tail written) = flat := by
  cases isBinary with
  | false => exact same tail
  | true => exact (bare_parenthesize _).trans (same true)

/-- Besides parentheses, an expression is printed as its own symbols. -/
theorem bare_written (wellFormed : e.WellFormed) (tail : Bool) :
    bare (e.written tail) = e.flatten := by
  induction e generalizing tail with
  | atom symbol => obtain rfl | ⟨v, rfl⟩ := wellFormed <;> rfl
  | successor operand ih =>
    exact congrArg (Symbol.successor :: ·) (bare_group (ih wellFormed) operand.isBinary tail)
  | negation operand ih =>
    exact congrArg (Symbol.negation :: ·) (bare_group (ih wellFormed) operand.isBinary tail)
  | binary op left right ihLeft ihRight =>
    rw [written, bare_append, ihLeft wellFormed.1]
    exact congrArg (left.flatten ++ .operator op :: ·)
      (bare_group (ihRight wellFormed.2) right.isBinary tail)
  | quantified q bound body ih =>
    obtain ⟨⟨v, rfl⟩, wellFormedBody⟩ := wellFormed
    have opened : bare ((quantified q (some (.letter v)) body).written true) =
        .quantifier q :: .letter v :: body.flatten :=
      congrArg ([Symbol.quantifier q, .letter v] ++ ·)
        (bare_group (ih wellFormedBody) body.isBinary true)
    cases tail with
    | true => exact opened
    | false => exact (bare_parenthesize _).trans opened

theorem balanced_group {written : Bool → List Symbol}
    (balanced : ∀ tail, Balanced (written tail)) (isBinary tail : Bool) :
    Balanced (group isBinary tail written) := by
  cases isBinary with
  | false => exact balanced tail
  | true => exact (balanced true).enclosed

theorem balanced_written (wellFormed : e.WellFormed) (tail : Bool) :
    Balanced (e.written tail) := by
  induction e generalizing tail with
  | atom symbol => obtain rfl | ⟨v, rfl⟩ := wellFormed <;> rfl
  | successor operand ih =>
    have sign : Balanced [.successor] := rfl
    exact sign.append (balanced_group (ih wellFormed) operand.isBinary tail)
  | negation operand ih =>
    have sign : Balanced [.negation] := rfl
    exact sign.append (balanced_group (ih wellFormed) operand.isBinary tail)
  | binary op left right ihLeft ihRight =>
    have sign : Balanced [.operator op] := rfl
    exact (ihLeft wellFormed.1 false).append
      (sign.append (balanced_group (ihRight wellFormed.2) right.isBinary tail))
  | quantified q bound body ih =>
    obtain ⟨⟨v, rfl⟩, wellFormedBody⟩ := wellFormed
    have signs : Balanced [.quantifier q, .letter v] := rfl
    have opened : Balanced ((quantified q (some (.letter v)) body).written true) :=
      signs.append (balanced_group (ih wellFormedBody) body.isBinary true)
    cases tail with
    | true => exact opened
    | false => exact opened.enclosed

/-! ## What parentheses enclose -/

theorem enclosesBody_written (front : List Symbol) {q : Quantifier} {v : Letter}
    (stands : Stands e (bare front) (quantified q (some (.letter v)) part))
    (binary : part.isBinary = true) (wellFormed : part.WellFormed) :
    e.EnclosesBody (front ++ [.quantifier q, .letter v]) (part.written true) :=
  ⟨bare front, q, v, part, stands, binary, bare_append _ _, bare_written wellFormed true⟩

/-- A bound letter stands before a body, and no sign that takes a term. -/
theorem not_enclosesBody_operand (front : List Symbol) {sign : Symbol}
    (takes : sign.takesTerm = true) (inner : List Symbol) :
    ¬ e.EnclosesBody (front ++ [sign]) inner := by
  rintro ⟨place, q, v, body, _, _, opens, _⟩
  have last := congrArg List.getLast? opens
  rw [bare_append] at last
  cases sign <;> simp [bare, Symbol.isParenthesis, Symbol.takesTerm] at last takes

/-- A quantifier is not itself the binary body of one. -/
theorem not_enclosesBody_followed {q : Quantifier} {v : Letter}
    (stands : Stands e (bare before) (quantified q (some (.letter v)) part))
    (wellFormed : part.WellFormed) :
    ¬ e.EnclosesBody before ((quantified q (some (.letter v)) part).written true) := by
  rintro ⟨place, q', v', body, within, binary, opens, encloses⟩
  have standsBody := within.trans (.body q' _ (.root body))
  have whole : (quantified q (some (.letter v)) part).WellFormed := ⟨⟨v, rfl⟩, wellFormed⟩
  rw [bare_written whole] at encloses
  obtain rfl := stands.unique standsBody opens encloses
  contradiction

/-! ## Where parentheses are printed -/

/-- What follows an expression that stands at a tail or elsewhere. -/
def Follows (tail : Bool) (rest : List Symbol) : Prop :=
  if tail then ∀ op, rest.head? ≠ some (.operator op)
  else ∃ op others, rest = .operator op :: others

theorem follows_cons_closing (rest : List Symbol) : Follows true (.closing :: rest) := by
  rintro op ⟨⟩

theorem follows_operator (op : Operator) (others : List Symbol) :
    Follows false (.operator op :: others) := ⟨op, others, rfl⟩

/-- The kinds of places of printed parentheses: `inner` stands between them. -/
inductive Site (e : Expression) : (before inner after : List Symbol) → Prop where
  /-- Around a binary operand. -/
  | operand (front : List Symbol) {sign : Symbol} {part : Expression} (after : List Symbol)
      (takes : sign.takesTerm = true) (binary : part.isBinary = true)
      (wellFormed : part.WellFormed) : Site e (front ++ [sign]) (part.written true) after
  /-- Around the binary body of a quantifier. -/
  | body (front : List Symbol) {q : Quantifier} {v : Letter} {part : Expression}
      {after : List Symbol} (stands : Stands e (bare front) (quantified q (some (.letter v)) part))
      (binary : part.isBinary = true) (wellFormed : part.WellFormed)
      (stops : ∀ op, after.head? ≠ some (.operator op)) :
      Site e (front ++ [.quantifier q, .letter v]) (part.written true) after
  /-- Around a quantifier that an operator follows. -/
  | followed {before : List Symbol} {q : Quantifier} {v : Letter} {part : Expression}
      (op : Operator) (rest : List Symbol)
      (stands : Stands e (bare before) (quantified q (some (.letter v)) part))
      (wellFormed : part.WellFormed) :
      Site e before ((quantified q (some (.letter v)) part).written true) (.operator op :: rest)

/-- A site in a part of an expression is a site in the expression. -/
theorem Site.lift (site : Site part before inner after) (front : List Symbol)
    (stands : ∀ {place target}, Stands part place target → Stands e (bare front ++ place) target) :
    Site e (front ++ before) inner after := by
  cases site with
  | operand others after takes binary wellFormed =>
    rw [← List.append_assoc]
    exact .operand _ _ takes binary wellFormed
  | body others within binary wellFormed stops =>
    rw [← List.append_assoc]
    refine .body _ ?_ binary wellFormed stops
    rw [bare_append]
    exact stands within
  | followed op rest within wellFormed =>
    refine .followed op rest ?_ wellFormed
    rw [bare_append]
    exact stands within

/-- All parentheses of an expression are at such sites, whatever may follow the expression. -/
def HasSites (e : Expression) : Prop :=
  ∀ (tail : Bool) (rest before inner after : List Symbol), Follows tail rest → Balanced inner →
    e.written tail = before ++ .opening :: (inner ++ .closing :: after) →
    Site e before inner (after ++ rest)

/-- A parenthesis is not among signs before it. -/
theorem exists_before_of_append {signs symbols : List Symbol} (plain : .opening ∉ signs)
    (printed : signs ++ symbols = before ++ .opening :: rest) :
    ∃ more, before = signs ++ more ∧ symbols = more ++ .opening :: rest := by
  rcases List.append_eq_append_iff.mp printed with ⟨more, longer, last⟩ | ⟨more, longer, last⟩
  · exact ⟨more, longer, last⟩
  · cases more with
    | nil => exact ⟨[], by simpa using longer.symm, last.symm⟩
    | cons s more =>
      obtain ⟨rfl, _⟩ := List.cons.inj last
      rw [longer] at plain
      exact (plain List.mem_append_cons_self).elim

/-- The parentheses of a part that is printed after signs are those around it, where it is binary,
and those in it. -/
theorem HasSites.of_group (sites : HasSites part) (wellFormed : part.WellFormed)
    (front signs : List Symbol) (plain : .opening ∉ signs)
    (stands : ∀ {place target}, Stands part place target →
      Stands e (bare (front ++ signs) ++ place) target)
    (around : part.isBinary = true → Site e (front ++ signs) (part.written true) rest)
    (follows : Follows tail rest) (matched : Balanced inner)
    (printed : signs ++ group part.isBinary tail part.written =
      before ++ .opening :: (inner ++ .closing :: after)) :
    Site e (front ++ before) inner (after ++ rest) := by
  obtain ⟨more, rfl, grouped⟩ := exists_before_of_append plain printed
  rw [← List.append_assoc]
  cases binary : part.isBinary with
  | false =>
    rw [binary] at grouped
    exact (sites tail rest more inner after follows matched grouped).lift _ stands
  | true =>
    rw [binary] at grouped
    rcases (balanced_written wellFormed true).pair_of_enclosed matched grouped with
      ⟨rfl, rfl, rfl⟩ | ⟨earlier, later, rfl, rfl, split⟩
    · rw [List.append_nil]
      exact around binary
    · have inside := sites true (.closing :: rest) earlier inner later (follows_cons_closing rest)
        matched split
      rw [List.append_cons, List.append_assoc later]
      refine inside.lift _ fun within => ?_
      rw [bare_concat_opening]
      exact stands within

/-- A quantifier has the parentheses of its body and, where an operator follows, its own. -/
theorem HasSites.quantified (q : Quantifier) (v : Letter) (sites : HasSites part)
    (wellFormed : part.WellFormed) : HasSites (quantified q (some (.letter v)) part) := by
  have opened (rest before inner after : List Symbol) (follows : Follows true rest)
      (matched : Balanced inner)
      (printed : (Expression.quantified q (some (.letter v)) part).written true =
        before ++ .opening :: (inner ++ .closing :: after)) :
      Site (Expression.quantified q (some (.letter v)) part) before inner (after ++ rest) := by
    have around (binary : part.isBinary = true) :
        Site (Expression.quantified q (some (.letter v)) part) [.quantifier q, .letter v]
          (part.written true) rest := .body [] (.root _) binary wellFormed follows
    exact sites.of_group wellFormed [] [.quantifier q, .letter v] (by simp) (.body q _) around
      follows matched printed
  intro tail rest before inner after follows matched printed
  cases tail with
  | true => exact opened rest before inner after follows matched printed
  | false =>
    have whole : (Expression.quantified q (some (.letter v)) part).WellFormed :=
      ⟨⟨v, rfl⟩, wellFormed⟩
    rcases (balanced_written whole true).pair_of_enclosed matched printed with
      ⟨rfl, rfl, rfl⟩ | ⟨earlier, later, rfl, rfl, split⟩
    · obtain ⟨op, others, rfl⟩ := follows
      exact .followed op others (.root _) wellFormed
    · have inside := opened (.closing :: rest) earlier inner later (follows_cons_closing rest)
        matched split
      rw [List.append_assoc]
      exact inside.lift [.opening] id

/-- Every pair of parentheses that is printed is at one of the sites. -/
theorem hasSites (wellFormed : e.WellFormed) : HasSites e := by
  induction e with
  | atom symbol =>
    intro tail rest before inner after follows matched printed
    have inside : Symbol.opening ∈ symbol.toList := by
      change symbol.toList = _ at printed
      simp [printed]
    obtain rfl | ⟨v, rfl⟩ := wellFormed <;> simp at inside
  | successor operand ih =>
    intro tail rest before inner after follows matched printed
    have around (binary : operand.isBinary = true) :
        Site (successor operand) [.successor] (operand.written true) rest :=
      .operand [] rest rfl binary wellFormed
    exact (ih wellFormed).of_group wellFormed [] [.successor] (by simp) .successor around follows
      matched printed
  | negation operand ih =>
    intro tail rest before inner after follows matched printed
    have around (binary : operand.isBinary = true) :
        Site (negation operand) [.negation] (operand.written true) rest :=
      .operand [] rest rfl binary wellFormed
    exact (ih wellFormed).of_group wellFormed [] [.negation] (by simp) .negation around follows
      matched printed
  | binary op left right ihLeft ihRight =>
    intro tail rest before inner after follows matched printed
    rcases (balanced_written wellFormed.1 false).pair_of_append matched printed with
      ⟨more, split, rfl⟩ | ⟨more, rfl, split⟩
    · have inside := ihLeft wellFormed.1 false
        (.operator op :: group right.isBinary tail right.written ++ rest) before inner more
        (follows_operator op _) matched split
      rw [List.append_assoc]
      exact inside.lift [] (.left op right)
    · have around (isBinary : right.isBinary = true) :
          Site (binary op left right) (left.written false ++ [.operator op])
            (right.written true) rest := .operand _ rest rfl isBinary wellFormed.2
      refine (ihRight wellFormed.2).of_group wellFormed.2 _ [.operator op] (by simp)
        (fun within => ?_) around follows matched split
      rw [bare_append, bare_written wellFormed.1, List.append_assoc]
      exact .right op left within
  | quantified q bound body ih =>
    obtain ⟨⟨v, rfl⟩, wellFormedBody⟩ := wellFormed
    exact (ih wellFormedBody).quantified q v wellFormedBody

end Expression

end Arithmetization
