import Arithmetization.Proofs.Grammar.Placeholders
import Arithmetization.Proofs.Printing.Written
import Mathlib.Data.List.Basic

/-! # Permissive reading inverts printing

A complete tree is printed so that the permissive reader finds it again in every context. A tree
that is cut short prints nothing for its missing atom; it is found again only as long as no
parenthesis is closed after that place, because the reader would take the closing symbol for the
missing one. Parentheses are closed there by the binary nodes on the path to the missing atom, the
root apart.
-/

namespace Arithmetization

namespace Expression

/-- A path leads down from the root of a tree to a node. Its nodes are listed without the root. -/
inductive Path : Expression → List Expression → Expression → Prop where
  | root (e : Expression) : Path e [] e
  | child {e child target : Expression} {nodes : List Expression} (member : child ∈ e.children)
      (path : Path child nodes target) : Path e (child :: nodes) target

/-- A tree that is cut short and the nodes on the path to its missing atom. -/
inductive CutAlong : Expression → List Expression → Prop where
  | absent : CutAlong missing []
  | successor {operand : Expression} {nodes : List Expression} (cut : CutAlong operand nodes) :
      CutAlong (successor operand) (operand :: nodes)
  | negation {operand : Expression} {nodes : List Expression} (cut : CutAlong operand nodes) :
      CutAlong (negation operand) (operand :: nodes)
  | binary (op : Operator) {left right : Expression} {nodes : List Expression}
      (complete : left.Complete) (cut : CutAlong right nodes) :
      CutAlong (binary op left right) (right :: nodes)
  | unbound (q : Quantifier) : CutAlong (quantified q none missing) [missing]
  | quantified (q : Quantifier) (s : Symbol) {body : Expression} {nodes : List Expression}
      (cut : CutAlong body nodes) : CutAlong (quantified q (some s) body) (body :: nodes)

variable {e operand target : Expression} {nodes : List Expression}

theorem Path.mem_preorder (path : Path e nodes target) : target ∈ e.preorder := by
  induction path with
  | root e => exact mem_preorder_self e
  | @child e child target nodes member path ih =>
    cases e with
    | atom symbol => cases member
    | binary op left right =>
      rcases List.mem_cons.mp member with rfl | member
      · exact List.mem_cons_of_mem _ (List.mem_append_left _ ih)
      · obtain rfl := List.mem_singleton.mp member
        exact List.mem_cons_of_mem _ (List.mem_append_right _ ih)
    | _ =>
      obtain rfl := List.mem_singleton.mp member
      exact List.mem_cons_of_mem _ ih

theorem Path.eq_nil_of_missing (path : Path missing nodes target) : nodes = [] := by
  cases path with
  | root => rfl
  | child member path => cases member

/-- A path to the missing atom follows the part that is cut short. -/
theorem CutShort.along_of_path (cut : e.CutShort) (path : Path e nodes missing) :
    CutAlong e nodes := by
  induction cut generalizing nodes with
  | absent =>
    obtain rfl := path.eq_nil_of_missing
    exact .absent
  | successor cut ih =>
    cases path with
    | child member path =>
      obtain rfl := List.mem_singleton.mp member
      exact .successor (ih path)
  | negation cut ih =>
    cases path with
    | child member path =>
      obtain rfl := List.mem_singleton.mp member
      exact .negation (ih path)
  | binary op complete cut ih =>
    cases path with
    | child member path =>
      rcases List.mem_cons.mp member with rfl | member
      · exact (complete.missing_notMem path.mem_preorder).elim
      · obtain rfl := List.mem_singleton.mp member
        exact .binary op complete (ih path)
  | unbound q =>
    cases path with
    | child member path =>
      obtain rfl := List.mem_singleton.mp member
      obtain rfl := path.eq_nil_of_missing
      exact .unbound q
  | quantified q s cut ih =>
    cases path with
    | child member path =>
      obtain rfl := List.mem_singleton.mp member
      exact .quantified q s (ih path)

theorem CutShort.exists_path (cut : e.CutShort) : ∃ nodes, Path e nodes missing := by
  have down {parent child : Expression} (member : child ∈ parent.children)
      (below : ∃ nodes, Path child nodes missing) : ∃ nodes, Path parent nodes missing := by
    obtain ⟨nodes, path⟩ := below
    exact ⟨child :: nodes, .child member path⟩
  induction cut with
  | absent => exact ⟨[], .root missing⟩
  | successor cut ih => exact down (List.mem_singleton_self _) ih
  | negation cut ih => exact down (List.mem_singleton_self _) ih
  | binary op complete cut ih => exact down (List.mem_cons_of_mem _ (List.mem_singleton_self _)) ih
  | unbound q => exact down (List.mem_singleton_self _) ⟨[], .root missing⟩
  | quantified q s cut ih => exact down (List.mem_singleton_self _) ih

end Expression

open Expression Reader

namespace Permissive

variable {e : Expression} {pending : List Frame} {symbols : List Symbol} {tail : Bool}

/-! ## Complete trees -/

/-- What ends where a term does: at the tail everything inside the innermost parenthesis, elsewhere
only the operand of an operator that may follow. -/
def ended (tail : Bool) (pending : List Frame) (e : Expression) : List Frame × Expression :=
  if tail then close pending e else settle pending e

/-- The symbols lead from the beginning of a term to a place where the same ends as after the given
term. -/
def ReadsAs (pending : List Frame) (symbols : List Symbol) (e : Expression) (tail : Bool) : Prop :=
  ∃ inner last, symbols.foldlM step ⟨.term, pending⟩ = some ⟨.after last, inner⟩ ∧
    ended tail inner last = ended tail pending e

/-- An expression begins here, not just an operand. -/
def BeginsExpression (pending : List Frame) : Prop := ∀ e, settle pending e = (pending, e)

/-- An expression is read where an expression begins and, with the parentheses that it gets as an
operand, where any term begins. -/
def IsRead (e : Expression) : Prop :=
  (∀ pending tail, BeginsExpression pending → ReadsAs pending (e.written tail) e tail) ∧
    ∀ pending tail, ReadsAs pending (group e.isBinary tail e.written) e tail

/-- A symbol that opens a frame is read before the part that the frame waits for. -/
theorem ReadsAs.opened {frame : Frame} (opening : List Symbol)
    (opens : opening.foldlM step ⟨.term, pending⟩ = some ⟨.term, frame :: pending⟩)
    (ends : ended tail (frame :: pending) e = ended tail pending (frame.fill e))
    (reads : ReadsAs (frame :: pending) symbols e tail) :
    ReadsAs pending (opening ++ symbols) (frame.fill e) tail := by
  obtain ⟨inner, last, run, same⟩ := reads
  refine ⟨inner, last, ?_, same.trans ends⟩
  rw [List.foldlM_append, opens]
  exact run

/-- In parentheses an expression is a term of its own, whatever follows. -/
theorem ReadsAs.parenthesized (reads : ReadsAs (.parenthesis :: pending) symbols e true) :
    ReadsAs pending (parenthesize symbols) e tail := by
  obtain ⟨inner, last, run, same⟩ := reads
  have closes : afterParenthesis? inner last = some ⟨.after e, pending⟩ :=
    afterParenthesis?_eq_some_iff.mpr same
  exact ⟨pending, e, foldlM_concat_eq_some_iff.mpr ⟨_, run, closes⟩, rfl⟩

theorem IsRead.of_term (single : e.isBinary = false)
    (reads : ∀ pending tail, ReadsAs pending (e.written tail) e tail) : IsRead e := by
  refine ⟨fun pending tail _ => reads pending tail, fun pending tail => ?_⟩
  rw [single]
  exact reads pending tail

theorem IsRead.of_binary (binary : e.isBinary = true)
    (reads : ∀ pending tail, BeginsExpression pending → ReadsAs pending (e.written tail) e tail) :
    IsRead e := by
  refine ⟨reads, fun pending tail => ?_⟩
  have inside : BeginsExpression (.parenthesis :: pending) := fun _ => rfl
  rw [binary]
  exact (reads (.parenthesis :: pending) true inside).parenthesized

/-- A left operand and the operator after it open a frame. -/
theorem IsRead.operand {left : Expression} (reads : IsRead left) (begins : BeginsExpression pending)
    (op : Operator) :
    (left.written false ++ [Symbol.operator op]).foldlM step ⟨.term, pending⟩ =
      some ⟨.term, .operand op left :: pending⟩ := by
  obtain ⟨inner, last, run, same⟩ := reads.1 pending false begins
  have settled : settle inner last = (pending, left) := same.trans (begins left)
  refine foldlM_concat_eq_some_iff.mpr ⟨_, run, ?_⟩
  change some (afterOperator op inner last) = _
  rw [afterOperator, settled]

theorem isRead_of_complete (complete : e.Complete) : IsRead e := by
  induction e with
  | atom symbol =>
    refine .of_term rfl fun pending tail => ?_
    obtain ⟨s, rfl, stands⟩ := complete
    refine ⟨pending, .atom (some s), ?_, rfl⟩
    cases s <;> first | rfl | contradiction
  | successor operand ih =>
    refine .of_term rfl fun pending tail => ?_
    have reads := (ih complete).2 (.successor :: pending) tail
    exact reads.opened [.successor] rfl (by cases tail <;> rfl)
  | negation operand ih =>
    refine .of_term rfl fun pending tail => ?_
    have reads := (ih complete).2 (.negation :: pending) tail
    exact reads.opened [.negation] rfl (by cases tail <;> rfl)
  | binary op left right ihLeft ihRight =>
    refine .of_binary rfl fun pending tail begins => ?_
    have opens := (ihLeft complete.1).operand begins op
    have ends : ended tail (.operand op left :: pending) right =
        ended tail pending (.binary op left right) := by
      cases tail with
      | true => rfl
      | false => exact (begins (.binary op left right)).symm
    have reads := ((ihRight complete.2).2 (.operand op left :: pending) tail).opened _ opens ends
    rwa [List.append_assoc] at reads
  | quantified q bound body ih =>
    obtain ⟨⟨s, rfl⟩, completeBody⟩ := complete
    have opened (pending : List Frame) : ReadsAs pending
        (.quantifier q :: s :: group body.isBinary true body.written)
        (.quantified q (some s) body) true := by
      have reads := (ih completeBody).2 (.body q (some s) :: pending) true
      exact reads.opened [.quantifier q, s] rfl rfl
    refine .of_term rfl fun pending tail => ?_
    cases tail with
    | true => exact opened pending
    | false => exact (opened (.parenthesis :: pending)).parenthesized

/-! ## Trees that are cut short -/

variable {nodes : List Expression}

/-- Without a binary node below the root on the way, a tree that is cut short is read up to the
place of its missing atom, where the reader still waits for it. -/
theorem exists_run_of_cutAlong (cut : CutAlong e nodes)
    (straight : ∀ node ∈ nodes, node.isBinary = false) (pending : List Frame)
    (begins : e.isBinary = true → BeginsExpression pending) :
    ∃ reader, (e.written true).foldlM step ⟨.term, pending⟩ = some reader ∧
      finish reader = closeAll pending e := by
  induction cut generalizing pending with
  | absent => exact ⟨⟨.term, pending⟩, rfl, rfl⟩
  | @successor operand nodes cut ih =>
    obtain ⟨single, below⟩ := List.forall_mem_cons.mp straight
    rw [written, single]
    exact ih below (.successor :: pending) (by simp [single])
  | @negation operand nodes cut ih =>
    obtain ⟨single, below⟩ := List.forall_mem_cons.mp straight
    rw [written, single]
    exact ih below (.negation :: pending) (by simp [single])
  | @binary op left right nodes complete cut ih =>
    obtain ⟨single, below⟩ := List.forall_mem_cons.mp straight
    have opens := (isRead_of_complete complete).operand (begins rfl) op
    rw [written, single, List.append_cons, List.foldlM_append, opens]
    exact ih below (.operand op left :: pending) (by simp [single])
  | unbound q => exact ⟨⟨.bound q, pending⟩, rfl, rfl⟩
  | @quantified q s body nodes cut ih =>
    obtain ⟨single, below⟩ := List.forall_mem_cons.mp straight
    rw [written, single]
    exact ih below (.body q (some s) :: pending) (by simp [single])

/-- How the last part of a printed tree ends, from how that part is printed on its own: the
parentheses around a binary part are closed after everything in it. -/
theorem exists_group_ends (front frontFlat : List Symbol) {s x : Symbol}
    (ends : ∀ s, (s :: e.flatten).getLast? = some x →
      ∃ before, s :: e.written true =
        before ++ x :: List.replicate (nodes.countP isBinary) .closing)
    (last : (frontFlat ++ s :: e.flatten).getLast? = some x) :
    ∃ before, front ++ s :: group e.isBinary true e.written =
      before ++ x :: List.replicate ((e :: nodes).countP isBinary) .closing := by
  rw [List.getLast?_append_of_ne_nil _ (List.cons_ne_nil _ _)] at last
  cases binary : e.isBinary with
  | false =>
    obtain ⟨before, split⟩ := ends s last
    refine ⟨front ++ before, ?_⟩
    rw [List.countP_cons_of_neg (by simp [binary]), List.append_assoc, ← split]
    rfl
  | true =>
    have nonempty : e.flatten ≠ [] := by
      cases e with
      | binary op left right => simp [flatten]
      | _ => contradiction
    have inside : (Symbol.opening :: e.flatten).getLast? = some x := by
      rw [← List.singleton_append, List.getLast?_append_of_ne_nil _ nonempty] at last ⊢
      exact last
    obtain ⟨before, split⟩ := ends .opening inside
    refine ⟨front ++ s :: before, ?_⟩
    rw [List.countP_cons_of_pos binary, List.replicate_succ']
    calc
      front ++ s :: group true true e.written
        = front ++ s :: ((.opening :: e.written true) ++ [.closing]) := rfl
      _ = _ := by rw [split]; simp

/-- After its last symbol, a tree that is cut short is printed with one closing parenthesis for each
binary node below the root on the path to the missing atom. The symbol before the tree makes the
statement hold of the missing atom, too. -/
theorem exists_written_ends (cut : CutAlong e nodes) {s x : Symbol}
    (last : (s :: e.flatten).getLast? = some x) :
    ∃ before, s :: e.written true =
      before ++ x :: List.replicate (nodes.countP isBinary) .closing := by
  induction cut generalizing s with
  | absent =>
    obtain rfl := Option.some.inj last
    exact ⟨[], rfl⟩
  | successor cut ih =>
    exact exists_group_ends [s] [s] (fun _ last => ih last) last
  | negation cut ih =>
    exact exists_group_ends [s] [s] (fun _ last => ih last) last
  | @binary op left _ _ complete cut ih =>
    exact exists_group_ends (s :: left.written false) (s :: left.flatten) (fun _ last => ih last) last
  | unbound q =>
    obtain rfl := Option.some.inj last
    exact ⟨[s], rfl⟩
  | quantified q s cut ih =>
    exact exists_group_ends [_, _] [_, _] (fun _ last => ih last) last

/-! ## The place of a missing atom -/

/-- Everything in the innermost construct is written at the end of the whole tree. -/
theorem flatten_suffix_closeAll (pending : List Frame) (e : Expression) :
    e.flatten <:+ (closeAll pending e).flatten :=
  ⟨gather Frame.flatten pending, (gathers_flatten.closeAll pending e).symm⟩

theorem symbol_of_bound {reader : Reader} {symbol : Symbol} {q : Quantifier}
    (taken : step reader symbol = some ⟨.bound q, pending⟩) : symbol = .quantifier q := by
  obtain ⟨phase, frames⟩ := reader
  cases phase with
  | term => cases symbol <;> cases taken; rfl
  | bound other => cases taken
  | after e =>
    cases symbol with
    | operator op => cases taken
    | _ =>
      obtain ⟨_, _, _, same⟩ := exists_close_of_afterParenthesis? taken
      cases same

/-- A closing symbol leaves a reader waiting for a term only if it is bound by a quantifier. -/
theorem exists_quantifier_before_closing {reader : Reader}
    (whole : (symbols ++ [Symbol.closing]).foldlM step start = some reader)
    (waits : ∀ e, reader.phase ≠ .after e) :
    ∃ earlier q pending, symbols = earlier ++ [.quantifier q] ∧
      reader = ⟨.term, .body q (some .closing) :: pending⟩ := by
  obtain ⟨⟨phase, pending⟩, run, taken⟩ := foldlM_concat_eq_some_iff.mp whole
  cases phase with
  | term =>
    obtain rfl := Option.some.inj taken
    exact (waits _ rfl).elim
  | after e =>
    obtain ⟨_, _, _, rfl⟩ := exists_close_of_afterParenthesis? taken
    exact (waits _ rfl).elim
  | bound q =>
    obtain rfl := Option.some.inj taken
    rcases List.eq_nil_or_concat' symbols with rfl | ⟨earlier, symbol, rfl⟩
    · cases run
    · obtain ⟨_, _, taken⟩ := foldlM_concat_eq_some_iff.mp run
      obtain rfl := symbol_of_bound taken
      exact ⟨earlier, q, pending, rfl, rfl⟩

/-- With a binary node on the way, the text of a tree that is cut short ends in a closing
parenthesis, and in a second closing symbol before it if the last symbol of the tree is one. -/
theorem exists_written_concat_closing (cut : CutAlong e nodes) {node : Expression}
    (member : node ∈ nodes) (binary : node.isBinary = true) :
    ∃ symbols, e.written true = symbols ++ [.closing] ∧
      (e.flatten.getLast? = some .closing → symbols.getLast? = some .closing) := by
  have positive : 0 < nodes.countP isBinary := List.countP_pos_iff.mpr ⟨node, member, binary⟩
  obtain ⟨count, counted⟩ := Nat.exists_eq_add_one_of_ne_zero (Nat.ne_of_gt positive)
  -- Any symbol in front of the tree will do; it only makes the list of symbols nonempty.
  obtain ⟨x, last⟩ : ∃ x, (Symbol.zero :: e.flatten).getLast? = some x :=
    ⟨_, List.getLast?_eq_some_getLast (List.cons_ne_nil _ _)⟩
  obtain ⟨before, ends⟩ := exists_written_ends cut last
  rw [counted, List.replicate_succ', ← List.cons_append, ← List.append_assoc] at ends
  obtain ⟨first, symbols, front⟩ := List.exists_cons_of_ne_nil
    (List.append_ne_nil_of_right_ne_nil before (List.cons_ne_nil x (List.replicate count .closing)))
  rw [front] at ends
  obtain ⟨rfl, printed⟩ := List.cons.inj ends
  refine ⟨symbols, printed, fun closes => ?_⟩
  have nonempty : e.flatten ≠ [] := by
    intro empty
    rw [empty] at closes
    contradiction
  rw [← List.singleton_append, List.getLast?_append_of_ne_nil _ nonempty, closes] at last
  obtain rfl := Option.some.inj last
  have twice : (Symbol.zero :: symbols).getLast? = some .closing := by
    rw [← front, ← List.replicate_succ, List.replicate_succ', ← List.append_assoc,
      List.getLast?_concat]
  cases symbols with
  | nil => cases twice
  | cons symbol symbols => rwa [List.getLast?_cons_cons] at twice

/-- A tree that is cut short is not read again if a parenthesis is closed after it: the reader would
have to bind the closing symbol, but there is a quantifier before it only if the tree ends in one. -/
theorem straight_of_parse (cut : e.CutShort) (along : CutAlong e nodes)
    (same : (parse (e.written true)).root = e) : ∀ node ∈ nodes, node.isBinary = false := by
  intro node member
  by_contra bent
  obtain ⟨symbols, printed, second⟩ :=
    exists_written_concat_closing along member (by simpa using bent)
  obtain complete | ⟨reader, run, waits, parsed, _⟩ := parse_cases (e.written true)
  · rw [same] at complete
    exact complete.not_cutShort cut
  rw [printed] at run
  obtain ⟨earlier, q, pending, rfl, rfl⟩ := exists_quantifier_before_closing run waits
  have found : closeAll pending (.quantified q (some .closing) .missing) = e := by
    rw [parsed] at same
    exact same
  obtain ⟨front, flat⟩ := flatten_suffix_closeAll pending (.quantified q (some .closing) .missing)
  have last : e.flatten.getLast? = some .closing := by
    rw [← found, ← flat]
    exact List.getLast?_append_of_ne_nil front (List.cons_ne_nil _ _)
  have quantifier := second last
  rw [List.getLast?_concat] at quantifier
  cases quantifier

theorem parse_of_complete (complete : e.Complete) : (parse (e.written true)).root = e := by
  have begins : BeginsExpression [] := fun _ => rfl
  obtain ⟨inner, last, run, same⟩ := (isRead_of_complete complete).1 [] true begins
  have closed : close inner last = ([], e) := same
  calc
    (parse (e.written true)).root = closeAll inner last := by rw [parse_eq_of_run run]; rfl
    _ = closeAll (close inner last).1 (close inner last).2 := (closeAll_close inner last).symm
    _ = e := by rw [closed]; rfl

theorem parse_of_cutAlong (cut : CutAlong e nodes)
    (straight : ∀ node ∈ nodes, node.isBinary = false) : (parse (e.written true)).root = e := by
  have begins : BeginsExpression [] := fun _ => rfl
  obtain ⟨reader, run, finished⟩ := exists_run_of_cutAlong cut straight [] fun _ => begins
  rw [parse_eq_of_run run]
  exact finished

/-- A tree is read again from its text exactly when its placeholders stand where the end of a text
puts them and no binary node below the root lies on the path to its missing atom. -/
theorem parse_text_eq_iff (e : Expression) :
    (parse (symbolsOf e.text)).root = e ↔
      e.Placed ∧ ∀ nodes, Path e nodes missing → ∀ node ∈ nodes, node.isBinary = false := by
  have symbols : symbolsOf e.text = e.written true := by
    rw [← symbols_scan_text, Token.scan, Token.map_symbol_scanFrom]
    rfl
  rw [symbols]
  constructor
  · intro same
    have placed : e.Placed := by
      rw [← same]
      exact placed_parse _
    refine ⟨placed, fun nodes path => ?_⟩
    rcases placed_iff.mp placed with complete | cut
    · exact (complete.missing_notMem path.mem_preorder).elim
    · exact straight_of_parse cut (cut.along_of_path path) same
  · rintro ⟨placed, straight⟩
    rcases placed_iff.mp placed with complete | cut
    · exact parse_of_complete complete
    · obtain ⟨nodes, path⟩ := cut.exists_path
      exact parse_of_cutAlong (cut.along_of_path path) (straight nodes path)

end Permissive

end Arithmetization
