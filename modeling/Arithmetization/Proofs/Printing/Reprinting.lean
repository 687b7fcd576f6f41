import Arithmetization.Proofs.Grammar.Remainder
import Arithmetization.Proofs.Printing.PermissiveRoundTrip

/-! # Printing and reading again and again

Only a tree that is cut short may change when it is printed and read again: the parentheses that are
closed after the place of its missing atom are taken for what is missing there. `patch` follows this
along the way to the missing atom. A quantifier without a bound symbol takes the first closing
symbol, the missing atom takes the next one, and all others close parentheses as before. So what is
missing at all is filled in after two rounds.
-/

namespace Arithmetization

open Reader

namespace Expression

/-- The tree after one round of printing and permissive reading. -/
def reread (e : Expression) : Expression := (Permissive.parse (symbolsOf e.text)).root

/-- A tree that is cut short, with a closing symbol in the places that `count` closing symbols after
the tree fill when it is read; parentheses that are closed inside the tree come before them. -/
def patch : Expression → (count : Nat) → Expression
  | atom none, _ + 1 => atom (some .closing)
  | atom symbol, _ => atom symbol
  | successor operand, count => successor (operand.patch (count + operand.isBinary.toNat))
  | negation operand, count => negation (operand.patch (count + operand.isBinary.toNat))
  | binary op left right, count => binary op left (right.patch (count + right.isBinary.toNat))
  | quantified q none body, 0 => quantified q none body
  | quantified q none body, count + 1 => quantified q (some .closing) (body.patch count)
  | quantified q (some s) body, count =>
    quantified q (some s) (body.patch (count + body.isBinary.toNat))

/-- Two trees that differ only where the first has a missing atom or an absent bound symbol and the
second may have a closing symbol. -/
inductive Filled : Expression → Expression → Prop where
  | atom (symbol : Option Symbol) : Filled (atom symbol) (atom symbol)
  | missing : Filled missing (.atom (some .closing))
  | successor {operand operand' : Expression} (filled : Filled operand operand') :
      Filled (successor operand) (successor operand')
  | negation {operand operand' : Expression} (filled : Filled operand operand') :
      Filled (negation operand) (negation operand')
  | binary (op : Operator) {left left' right right' : Expression} (filledLeft : Filled left left')
      (filledRight : Filled right right') : Filled (binary op left right) (binary op left' right')
  | quantified (q : Quantifier) (bound : Option Symbol) {body body' : Expression}
      (filled : Filled body body') : Filled (quantified q bound body) (quantified q bound body')
  | unbound (q : Quantifier) {body body' : Expression} (filled : Filled body body') :
      Filled (quantified q none body) (quantified q (some .closing) body')

theorem Filled.refl (e : Expression) : Filled e e := by
  induction e with
  | atom symbol => exact .atom symbol
  | successor operand ih => exact .successor ih
  | negation operand ih => exact .negation ih
  | binary op left right ihLeft ihRight => exact .binary op ihLeft ihRight
  | quantified q bound body ih => exact .quantified q bound ih

variable {e : Expression}

theorem Filled.isBinary_eq {e' : Expression} (filled : Filled e e') :
    e.isBinary = e'.isBinary := by
  cases filled <;> rfl

/-! ## Patched trees -/

theorem filled_patch (e : Expression) (count : Nat) : Filled e (e.patch count) := by
  induction e generalizing count with
  | atom symbol =>
    cases symbol with
    | some s => exact .atom _
    | none =>
      cases count with
      | zero => exact .atom none
      | succ count => exact .missing
  | successor operand ih => exact .successor (ih _)
  | negation operand ih => exact .negation (ih _)
  | binary op left right _ ih => exact .binary op (.refl left) (ih _)
  | quantified q bound body ih =>
    cases bound with
    | some s => exact .quantified q (some s) (ih _)
    | none =>
      cases count with
      | zero => exact .refl _
      | succ count => exact .unbound q (ih count)

theorem isBinary_patch (e : Expression) (count : Nat) : (e.patch count).isBinary = e.isBinary :=
  (filled_patch e count).isBinary_eq.symm

/-- A tree is complete after being patched twice, if patching changes it at all. -/
theorem CutShort.patch_cases (cut : e.CutShort) (count : Nat) :
    e.patch count = e ∨ (e.patch count).Complete ∨
      ((e.patch count).CutShort ∧ ((e.patch count).patch count).Complete) := by
  induction cut generalizing count with
  | absent =>
    cases count with
    | zero => exact .inl rfl
    | succ count => exact .inr (.inl ⟨.closing, rfl, rfl⟩)
  | successor cut ih =>
    rcases ih _ with same | complete | ⟨again, complete⟩
    · exact .inl (congrArg Expression.successor same)
    · exact .inr (.inl complete)
    · refine .inr (.inr ⟨.successor again, ?_⟩)
      rwa [patch, patch, isBinary_patch]
  | negation cut ih =>
    rcases ih _ with same | complete | ⟨again, complete⟩
    · exact .inl (congrArg Expression.negation same)
    · exact .inr (.inl complete)
    · refine .inr (.inr ⟨.negation again, ?_⟩)
      rwa [patch, patch, isBinary_patch]
  | binary op completeLeft cut ih =>
    rcases ih _ with same | complete | ⟨again, complete⟩
    · exact .inl (congrArg (Expression.binary op _) same)
    · exact .inr (.inl ⟨completeLeft, complete⟩)
    · refine .inr (.inr ⟨.binary op completeLeft again, ?_⟩)
      rw [patch, patch, isBinary_patch]
      exact ⟨completeLeft, complete⟩
  | unbound q =>
    -- One closing symbol is bound, and the atom is still missing; two fill both places.
    rcases count with _ | _ | count
    · exact .inl rfl
    · exact .inr (.inr ⟨.quantified q .closing .absent, ⟨_, rfl⟩, .closing, rfl, rfl⟩)
    · exact .inr (.inl ⟨⟨_, rfl⟩, .closing, rfl, rfl⟩)
  | quantified q s cut ih =>
    rcases ih _ with same | complete | ⟨again, complete⟩
    · exact .inl (congrArg (Expression.quantified q (some s)) same)
    · exact .inr (.inl ⟨⟨s, rfl⟩, complete⟩)
    · refine .inr (.inr ⟨.quantified q s again, ?_⟩)
      rw [patch, patch, isBinary_patch]
      exact ⟨⟨s, rfl⟩, complete⟩

end Expression

/-! ## Reading a printed tree that is cut short -/

open Expression

namespace Permissive

variable {e : Expression}

/-- Closing symbols after the text of a tree fill the places that patching fills. -/
def IsPatched (e : Expression) : Prop :=
  ∀ pending count, (e.isBinary = true → BeginsExpression pending) →
    conclude ⟨.term, pending⟩ (e.written true ++ List.replicate count .closing) =
      closeAll pending (e.patch count)

/-- As an operand a binary tree closes one parenthesis more. -/
theorem IsPatched.group (patched : IsPatched e) (pending : List Frame) (count : Nat) :
    conclude ⟨.term, pending⟩ (group e.isBinary true e.written ++ List.replicate count .closing) =
      closeAll pending (e.patch (count + e.isBinary.toNat)) := by
  cases binary : e.isBinary with
  | false => exact patched pending count (by simp [binary])
  | true =>
    have inside : BeginsExpression (.parenthesis :: pending) := fun _ => rfl
    have opens : [Symbol.opening].foldlM step ⟨.term, pending⟩ =
        some ⟨.term, .parenthesis :: pending⟩ := rfl
    calc
      conclude ⟨.term, pending⟩ (parenthesize (e.written true) ++ List.replicate count .closing)
        = conclude ⟨.term, pending⟩
            ([.opening] ++ (e.written true ++ List.replicate (count + 1) .closing)) := by
          simp [parenthesize, List.replicate_succ]
      _ = conclude ⟨.term, .parenthesis :: pending⟩
            (e.written true ++ List.replicate (count + 1) .closing) := conclude_append opens _
      _ = closeAll pending (e.patch (count + 1)) := patched _ _ fun _ => inside

theorem isPatched_missing : IsPatched missing := by
  intro pending count _
  cases count with
  | zero => rfl
  | succ count => exact conclude_closings pending (.atom (some .closing)) count

/-- A part that ends the text of a tree, read after the symbols that open its frame. -/
theorem IsPatched.opened (patched : IsPatched e) (frame : Frame) (opening : List Symbol)
    {pending : List Frame}
    (opens : opening.foldlM step ⟨.term, pending⟩ = some ⟨.term, frame :: pending⟩) (count : Nat) :
    conclude ⟨.term, pending⟩
        (opening ++ Expression.group e.isBinary true e.written ++ List.replicate count .closing) =
      closeAll (frame :: pending) (e.patch (count + e.isBinary.toNat)) := by
  rw [List.append_assoc, conclude_append opens]
  exact patched.group (frame :: pending) count

theorem isPatched_of_cutShort (cut : e.CutShort) : IsPatched e := by
  induction cut with
  | absent => exact isPatched_missing
  | successor cut ih =>
    intro pending count _
    exact ih.opened .successor [.successor] rfl count
  | negation cut ih =>
    intro pending count _
    exact ih.opened .negation [.negation] rfl count
  | binary op complete cut ih =>
    intro pending count begins
    have opens := (isRead_of_complete complete).operand (begins rfl) op
    rw [written, List.append_cons]
    exact ih.opened _ _ opens count
  | unbound q =>
    intro pending count _
    cases count with
    | zero => rfl
    | succ count =>
      exact isPatched_missing (.body q (some .closing) :: pending) count (by simp [isBinary])
  | quantified q s cut ih =>
    intro pending count _
    exact ih.opened (.body q (some s)) [.quantifier q, s] rfl count

end Permissive

/-! ## Rounds of printing and reading -/

namespace Expression

open Permissive

variable {e : Expression}

theorem reread_eq (e : Expression) : e.reread = (parse (e.written true)).root := by
  rw [reread, symbolsOf_text]

theorem Complete.reread_eq (complete : e.Complete) : e.reread = e := by
  rw [Expression.reread_eq, parse_of_complete complete]

theorem CutShort.reread_eq (cut : e.CutShort) : e.reread = e.patch 0 := by
  have read := isPatched_of_cutShort cut [] 0 fun _ _ => rfl
  rw [List.replicate_zero, List.append_nil] at read
  rw [Expression.reread_eq, root_parse]
  exact read

theorem Placed.filled_reread (placed : e.Placed) : Filled e e.reread := by
  rcases placed_iff.mp placed with complete | cut
  · rw [complete.reread_eq]
    exact .refl e
  · rw [cut.reread_eq]
    exact filled_patch e 0

theorem Placed.reread_twice (placed : e.Placed) : e.reread.reread.reread = e.reread.reread := by
  rcases placed_iff.mp placed with complete | cut
  · rw [complete.reread_eq, complete.reread_eq, complete.reread_eq]
  · rw [cut.reread_eq]
    rcases cut.patch_cases 0 with same | complete | ⟨again, complete⟩
    · have fixed : e.reread = e := cut.reread_eq.trans same
      rw [same, fixed, fixed]
    · rw [complete.reread_eq, complete.reread_eq]
    · rw [again.reread_eq, complete.reread_eq]

/-- Printing and reading converges: a tree that was read changes only by closing symbols in the
places of its missing atom and of an absent bound symbol, and no longer changes after two rounds;
any tree no longer changes after three. -/
theorem reread_converges :
    (∀ symbols, Filled (parse symbols).root (parse symbols).root.reread ∧
      (parse symbols).root.reread.reread.reread = (parse symbols).root.reread.reread) ∧
    ∀ e : Expression, e.reread.reread.reread.reread = e.reread.reread.reread := by
  have read (symbols : List Symbol) : (parse symbols).root.Placed := placed_parse symbols
  refine ⟨fun symbols => ⟨(read symbols).filled_reread, (read symbols).reread_twice⟩, fun e => ?_⟩
  exact (read (symbolsOf e.text)).reread_twice

end Expression

end Arithmetization
