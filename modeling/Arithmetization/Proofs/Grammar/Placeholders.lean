import Arithmetization.Grammar.Permissive
import Arithmetization.Proofs.Grammar.Reading

/-! # Placeholders in permissively read trees

A missing atom and an absent bound symbol stand for what the end of a text cut off. A tree that was
read has therefore at most one missing atom, as its last node, and an absent bound symbol only
together with it. `placed_iff` splits such trees into those without placeholders, `Complete`, and
those that end in one, `CutShort`; the readers and the printer are followed along these two.
-/

namespace Arithmetization

/-- Whether a symbol begins a larger construct where a term is expected. -/
def Symbol.opensTerm : Symbol → Bool
  | quantifier _ => true
  | negation => true
  | successor => true
  | opening => true
  | _ => false

theorem Symbol.opensTerm_eq_false_iff {s : Symbol} : s.opensTerm = false ↔
    (∀ q, s ≠ quantifier q) ∧ s ≠ negation ∧ s ≠ successor ∧ s ≠ opening := by
  cases s <;> simp [opensTerm]

namespace Expression

/-- The nodes of a tree in preorder, each with everything below it. -/
def preorder : Expression → List Expression
  | atom symbol => [atom symbol]
  | successor operand => successor operand :: operand.preorder
  | negation operand => negation operand :: operand.preorder
  | binary op left right => binary op left right :: (left.preorder ++ right.preorder)
  | quantified q bound body => quantified q bound body :: body.preorder

theorem preorder_ne_nil (e : Expression) : e.preorder ≠ [] := by
  cases e <;> simp [preorder]

/-- Placeholders stand only where the end of a text puts them, and no atom holds a symbol that
would have begun a larger construct. -/
structure Placed (e : Expression) : Prop where
  atoms : ∀ s, atom (some s) ∈ e.preorder → s.opensTerm = false
  /-- A missing atom is the last node, so there is at most one. -/
  last : missing ∉ e.preorder.dropLast
  unbound : ∀ q body, quantified q none body ∈ e.preorder → body = missing

/-- A tree without placeholders whose atoms hold symbols that may stand alone. -/
def Complete : Expression → Prop
  | atom symbol => ∃ s, symbol = some s ∧ s.opensTerm = false
  | successor operand => operand.Complete
  | negation operand => operand.Complete
  | binary _ left right => left.Complete ∧ right.Complete
  | quantified _ bound body => (∃ s, bound = some s) ∧ body.Complete

/-- A tree that is complete up to a placeholder at its very end. -/
inductive CutShort : Expression → Prop where
  | absent : CutShort missing
  | successor {operand : Expression} (cut : CutShort operand) : CutShort (successor operand)
  | negation {operand : Expression} (cut : CutShort operand) : CutShort (negation operand)
  | binary (op : Operator) {left right : Expression} (complete : left.Complete)
      (cut : CutShort right) : CutShort (binary op left right)
  | unbound (q : Quantifier) : CutShort (quantified q none missing)
  | quantified (q : Quantifier) (s : Symbol) {body : Expression} (cut : CutShort body) :
      CutShort (quantified q (some s) body)

variable {e part left right : Expression} {op : Operator}

/-! ## Complete trees -/

theorem mem_preorder_self (e : Expression) : e ∈ e.preorder := by
  cases e <;> exact List.mem_cons_self

/-- All parts of a complete tree are complete. -/
theorem Complete.of_mem (complete : e.Complete) (member : part ∈ e.preorder) : part.Complete := by
  induction e with
  | atom symbol =>
    obtain rfl := List.mem_singleton.mp member
    exact complete
  | successor operand ih =>
    rcases List.mem_cons.mp member with rfl | below
    · exact complete
    · exact ih complete below
  | negation operand ih =>
    rcases List.mem_cons.mp member with rfl | below
    · exact complete
    · exact ih complete below
  | binary op left right ihLeft ihRight =>
    rcases List.mem_cons.mp member with rfl | below
    · exact complete
    · rcases List.mem_append.mp below with below | below
      · exact ihLeft complete.1 below
      · exact ihRight complete.2 below
  | quantified q bound body ih =>
    rcases List.mem_cons.mp member with rfl | below
    · exact complete
    · exact ih complete.2 below

theorem not_complete_missing : ¬ Complete missing := by
  rintro ⟨s, absent, _⟩
  contradiction

theorem Complete.missing_notMem (complete : e.Complete) : missing ∉ e.preorder := by
  intro member
  exact not_complete_missing (complete.of_mem member)

theorem Complete.placed (complete : e.Complete) : e.Placed where
  atoms s member := by
    obtain ⟨other, same, stands⟩ := complete.of_mem member
    obtain rfl := Option.some.inj same
    exact stands
  last member := complete.missing_notMem (List.dropLast_subset _ member)
  unbound q body member := by
    obtain ⟨⟨s, bound⟩, _⟩ := complete.of_mem member
    contradiction

/-! ## Trees that are cut short -/

/-- The missing atom of a tree that is cut short is its last node and no other. -/
theorem CutShort.preorder_eq (cut : e.CutShort) :
    ∃ nodes, e.preorder = nodes ++ [missing] ∧ missing ∉ nodes := by
  induction cut with
  | absent => exact ⟨[], rfl, List.not_mem_nil⟩
  | @successor operand cut ih =>
    obtain ⟨nodes, split, others⟩ := ih
    exact ⟨.successor operand :: nodes, by rw [preorder, split]; rfl, by simp [others]⟩
  | @negation operand cut ih =>
    obtain ⟨nodes, split, others⟩ := ih
    exact ⟨.negation operand :: nodes, by rw [preorder, split]; rfl, by simp [others]⟩
  | @binary op left right complete cut ih =>
    obtain ⟨nodes, split, others⟩ := ih
    refine ⟨.binary op left right :: (left.preorder ++ nodes), ?_, ?_⟩
    · rw [preorder, split, List.cons_append, List.append_assoc]
    · simp [others, complete.missing_notMem]
  | unbound q => exact ⟨[.quantified q none .missing], rfl, by simp⟩
  | @quantified q s body cut ih =>
    obtain ⟨nodes, split, others⟩ := ih
    exact ⟨.quantified q (some s) body :: nodes, by rw [preorder, split]; rfl, by simp [others]⟩

theorem CutShort.missing_mem (cut : e.CutShort) : missing ∈ e.preorder := by
  obtain ⟨nodes, split, _⟩ := cut.preorder_eq
  simp [split]

theorem Complete.not_cutShort (complete : e.Complete) : ¬ e.CutShort := by
  intro cut
  exact complete.missing_notMem cut.missing_mem

/-- The parts of a tree that is cut short are complete or cut short themselves. -/
theorem CutShort.of_mem (cut : e.CutShort) (member : part ∈ e.preorder) :
    part.Complete ∨ part.CutShort := by
  induction cut with
  | absent =>
    obtain rfl := List.mem_singleton.mp member
    exact .inr .absent
  | successor cut ih =>
    rcases List.mem_cons.mp member with rfl | below
    · exact .inr (.successor cut)
    · exact ih below
  | negation cut ih =>
    rcases List.mem_cons.mp member with rfl | below
    · exact .inr (.negation cut)
    · exact ih below
  | binary op complete cut ih =>
    rcases List.mem_cons.mp member with rfl | below
    · exact .inr (.binary op complete cut)
    · rcases List.mem_append.mp below with below | below
      · exact .inl (complete.of_mem below)
      · exact ih below
  | unbound q =>
    rcases List.mem_cons.mp member with rfl | below
    · exact .inr (.unbound q)
    · obtain rfl := List.mem_singleton.mp below
      exact .inr .absent
  | quantified q s cut ih =>
    rcases List.mem_cons.mp member with rfl | below
    · exact .inr (.quantified q s cut)
    · exact ih below

theorem CutShort.placed (cut : e.CutShort) : e.Placed where
  atoms s member := by
    rcases cut.of_mem member with complete | cut
    · exact complete.placed.atoms s (mem_preorder_self _)
    · cases cut
  last member := by
    obtain ⟨nodes, split, others⟩ := cut.preorder_eq
    rw [split, List.dropLast_concat] at member
    exact others member
  unbound q body member := by
    rcases cut.of_mem member with complete | cut
    · exact complete.placed.unbound q body (mem_preorder_self _)
    · cases cut
      rfl

/-! ## Placement -/

theorem Placed.count_missing_le (placed : e.Placed) : e.preorder.count missing ≤ 1 := by
  have split := List.dropLast_concat_getLast e.preorder_ne_nil
  have others : e.preorder.dropLast.count missing = 0 := List.count_eq_zero.mpr placed.last
  rw [← split, List.count_append, others, Nat.zero_add]
  exact List.count_le_length

theorem Placed.getLast?_of_missing (placed : e.Placed) (member : missing ∈ e.preorder) :
    e.preorder.getLast? = some missing := by
  have split := List.dropLast_concat_getLast e.preorder_ne_nil
  rw [← split] at member
  rcases List.mem_append.mp member with before | last
  · exact (placed.last before).elim
  · rw [List.getLast?_eq_some_getLast e.preorder_ne_nil, List.mem_singleton.mp last]

/-- Placement is inherited by the part that the last nodes of a tree form. -/
theorem Placed.of_suffix (placed : e.Placed) (suffix : part.preorder <:+ e.preorder) :
    part.Placed where
  atoms s member := placed.atoms s (suffix.mem member)
  last member := by
    obtain ⟨front, split⟩ := suffix
    apply placed.last
    rw [← split, List.dropLast_append_of_ne_nil part.preorder_ne_nil]
    exact List.mem_append_right front member
  unbound q body member := placed.unbound q body (suffix.mem member)

/-- The left operand ends before the last node, so it has no missing atom. -/
theorem Placed.leftOperand (placed : (binary op left right).Placed) :
    left.Placed ∧ missing ∉ left.preorder := by
  have inside : ∀ node ∈ left.preorder, node ∈ (binary op left right).preorder.dropLast := by
    intro node member
    rw [preorder, ← List.cons_append, List.dropLast_append_of_ne_nil right.preorder_ne_nil]
    exact List.mem_append_left _ (List.mem_cons_of_mem _ member)
  have noMissing : missing ∉ left.preorder := fun member => placed.last (inside _ member)
  refine ⟨⟨?_, ?_, ?_⟩, noMissing⟩
  · intro s member
    exact placed.atoms s (List.dropLast_subset _ (inside _ member))
  · intro member
    exact noMissing (List.dropLast_subset _ member)
  · intro q body member
    exact placed.unbound q body (List.dropLast_subset _ (inside _ member))

theorem Placed.complete_or_cutShort (placed : e.Placed) : e.Complete ∨ e.CutShort := by
  induction e with
  | atom symbol =>
    cases symbol with
    | none => exact .inr .absent
    | some s => exact .inl ⟨s, rfl, placed.atoms s (mem_preorder_self _)⟩
  | successor operand ih =>
    rcases ih (placed.of_suffix (List.suffix_cons _ _)) with complete | cut
    · exact .inl complete
    · exact .inr (.successor cut)
  | negation operand ih =>
    rcases ih (placed.of_suffix (List.suffix_cons _ _)) with complete | cut
    · exact .inl complete
    · exact .inr (.negation cut)
  | binary op left right ihLeft ihRight =>
    obtain ⟨placedLeft, noMissing⟩ := placed.leftOperand
    have completeLeft : left.Complete := by
      rcases ihLeft placedLeft with complete | cut
      · exact complete
      · exact (noMissing cut.missing_mem).elim
    have suffix : right.preorder <:+ (binary op left right).preorder :=
      ⟨binary op left right :: left.preorder, rfl⟩
    rcases ihRight (placed.of_suffix suffix) with complete | cut
    · exact .inl ⟨completeLeft, complete⟩
    · exact .inr (.binary op completeLeft cut)
  | quantified q bound body ih =>
    cases bound with
    | none =>
      obtain rfl := placed.unbound q body (mem_preorder_self _)
      exact .inr (.unbound q)
    | some s =>
      rcases ih (placed.of_suffix (List.suffix_cons _ _)) with complete | cut
      · exact .inl ⟨⟨s, rfl⟩, complete⟩
      · exact .inr (.quantified q s cut)

theorem placed_iff : e.Placed ↔ e.Complete ∨ e.CutShort := by
  constructor
  · exact Placed.complete_or_cutShort
  · rintro (complete | cut)
    · exact complete.placed
    · exact cut.placed

end Expression

/-! ## What a reader holds -/

open Expression

/-- What a frame holds to its left is complete. -/
def Frame.Whole : Frame → Prop
  | operand _ left => left.Complete
  | body _ bound => ∃ s, bound = some s
  | _ => True

theorem Frame.Whole.fill_complete {frame : Frame} {e : Expression} (whole : frame.Whole)
    (complete : e.Complete) : (frame.fill e).Complete := by
  cases frame with
  | operand op left => exact ⟨whole, complete⟩
  | body q bound => exact ⟨whole, complete⟩
  | _ => exact complete

theorem Frame.Whole.fill_cutShort {frame : Frame} {e : Expression} (whole : frame.Whole)
    (cut : e.CutShort) : (frame.fill e).CutShort := by
  cases frame with
  | successor => exact .successor cut
  | negation => exact .negation cut
  | operand op left => exact .binary op whole cut
  | parenthesis => exact cut
  | body q bound =>
    obtain ⟨s, rfl⟩ := whole
    exact .quantified q s cut

namespace Reader

/-- Everything that a reader has finished reading is complete. -/
structure Whole (reader : Reader) : Prop where
  pending : ∀ frame ∈ reader.pending, frame.Whole
  after : ∀ e, reader.phase = .after e → e.Complete

theorem whole_start : start.Whole where
  pending _ member := (List.not_mem_nil member).elim
  after _ same := by cases same

variable {pending : List Frame} {e : Expression}

/-- Filling frames that hold complete parts with a complete tree leaves such frames and gives a
complete tree. -/
theorem Fills.whole {ended : List Frame × Expression} (fills : Fills pending e ended)
    (whole : ∀ frame ∈ pending, frame.Whole) (complete : e.Complete) :
    (∀ frame ∈ ended.1, frame.Whole) ∧ ended.2.Complete := by
  constructor
  · intro frame member
    exact whole frame (fills.mem_of_mem member)
  · apply fills.preserves _ complete
    intro frame member e complete
    exact (whole frame member).fill_complete complete

theorem complete_closeAll (whole : ∀ frame ∈ pending, frame.Whole) (complete : e.Complete) :
    (closeAll pending e).Complete := by
  rw [closeAll_eq_fillAll]
  apply fillAll_preserves _ complete
  intro frame member e complete
  exact (whole frame member).fill_complete complete

theorem cutShort_closeAll (whole : ∀ frame ∈ pending, frame.Whole) (cut : e.CutShort) :
    (closeAll pending e).CutShort := by
  rw [closeAll_eq_fillAll]
  apply fillAll_preserves _ cut
  intro frame member e cut
  exact (whole frame member).fill_cutShort cut

end Reader

namespace Permissive

open Reader

variable {reader next : Reader} {symbols : List Symbol}

/-- A run is not shortened by what follows it. -/
theorem length_le_consumed {reader : Reader} {symbols : List Symbol}
    (run : symbols.foldlM step start = some reader) (rest : List Symbol) :
    symbols.length ≤ (parse (symbols ++ rest)).consumed := by
  have remaining := length_advance_snd_le step reader rest
  simp only [parse, advance_append run, List.length_append]
  omega

theorem parse_eq_of_advance {reader : Reader} {symbols rest : List Symbol}
    (outcome : advance step start symbols = (reader, rest)) :
    parse symbols = ⟨finish reader, symbols.length - rest.length⟩ := by
  rw [parse, outcome]

/-- A run over all symbols gives the expression at which it ends. -/
theorem parse_eq_of_run {reader : Reader} {symbols : List Symbol}
    (run : symbols.foldlM step start = some reader) :
    parse symbols = ⟨finish reader, symbols.length⟩ :=
  parse_eq_of_advance (advance_eq_nil_iff.mpr run)

/-- The permissive step keeps what has been read complete. -/
theorem whole_step {symbol : Symbol} (taken : step reader symbol = some next)
    (whole : reader.Whole) : next.Whole := by
  obtain ⟨phase, pending⟩ := reader
  have frames : ∀ frame ∈ pending, frame.Whole := whole.pending
  have opened (frame : Frame) (holds : frame.Whole) :
      Reader.Whole ⟨.term, frame :: pending⟩ := by
    refine ⟨?_, fun _ same => by cases same⟩
    intro other member
    rcases List.mem_cons.mp member with rfl | member
    · exact holds
    · exact frames other member
  have stood (s : Symbol) (stands : s.opensTerm = false) :
      Reader.Whole ⟨.after (.atom (some s)), pending⟩ := by
    refine ⟨frames, ?_⟩
    intro e same
    cases same
    exact ⟨s, rfl, stands⟩
  cases phase with
  | term =>
    cases symbol with
    | opening => obtain rfl := Option.some.inj taken; exact opened .parenthesis trivial
    | negation => obtain rfl := Option.some.inj taken; exact opened .negation trivial
    | successor => obtain rfl := Option.some.inj taken; exact opened .successor trivial
    | quantifier q =>
      obtain rfl := Option.some.inj taken
      exact ⟨frames, fun _ same => by cases same⟩
    | _ => obtain rfl := Option.some.inj taken; exact stood _ rfl
  | bound q =>
    obtain rfl := Option.some.inj taken
    exact opened (.body q (some symbol)) ⟨symbol, rfl⟩
  | after e =>
    have complete : e.Complete := whole.after e rfl
    have closing (closes : afterParenthesis? pending e = some next) : next.Whole := by
      obtain ⟨outer, inner, closed, rfl⟩ := exists_close_of_afterParenthesis? closes
      obtain ⟨frames, complete⟩ := (fills_close pending e).whole frames complete
      rw [closed] at frames complete
      refine ⟨fun frame member => frames frame (List.mem_cons_of_mem _ member), ?_⟩
      intro _ same
      cases same
      exact complete
    cases symbol with
    | operator op =>
      obtain rfl := Option.some.inj taken
      obtain ⟨frames, complete⟩ := (fills_settle pending e).whole frames complete
      refine ⟨?_, fun _ same => by cases same⟩
      intro frame member
      rcases List.mem_cons.mp member with rfl | member
      · exact complete
      · exact frames frame member
    | _ => exact closing taken

theorem whole_run (run : symbols.foldlM step reader = some next) (whole : reader.Whole) :
    next.Whole := by
  apply run_induction (motive := fun _ middle => middle.Whole) run whole
  intro _ middle next symbol taken whole
  exact whole_step taken whole

/-- Only after a term is a symbol refused. -/
theorem phase_of_refused {symbol : Symbol} (refused : step reader symbol = none) :
    ∃ e, reader.phase = .after e := by
  obtain ⟨phase, pending⟩ := reader
  cases phase with
  | term => cases symbol <;> contradiction
  | bound q => contradiction
  | after e => exact ⟨e, rfl⟩

/-- A run that ends after a term ends with a complete tree; one that ends before a term ends with a
tree that is cut short. -/
theorem complete_finish (whole : reader.Whole) {e : Expression} (phase : reader.phase = .after e) :
    (finish reader).Complete := by
  rw [finish, phase]
  exact complete_closeAll whole.pending (whole.after e phase)

theorem cutShort_finish (whole : reader.Whole) (phase : ∀ e, reader.phase ≠ .after e) :
    (finish reader).CutShort := by
  cases current : reader.phase with
  | term =>
    rw [finish, current]
    exact cutShort_closeAll whole.pending .absent
  | bound q =>
    rw [finish, current]
    exact cutShort_closeAll whole.pending (.unbound q)
  | after e => exact (phase e current).elim

/-- A tree that is read is complete, or else the symbols end before a term that it waits for. -/
theorem parse_cases (symbols : List Symbol) :
    (parse symbols).root.Complete ∨
      ∃ reader, symbols.foldlM step start = some reader ∧ (∀ e, reader.phase ≠ .after e) ∧
        parse symbols = ⟨finish reader, symbols.length⟩ ∧ (finish reader).CutShort := by
  rcases outcome : advance step start symbols with ⟨last, rest⟩
  have parsed := parse_eq_of_advance outcome
  obtain ⟨taken, _, run⟩ := exists_run_of_advance outcome
  have whole := whole_run run whole_start
  by_cases after : ∃ e, last.phase = .after e
  · obtain ⟨e, phase⟩ := after
    left
    rw [parsed]
    exact complete_finish whole phase
  · have before : ∀ e, last.phase ≠ .after e := fun e phase => after ⟨e, phase⟩
    right
    cases rest with
    | nil =>
      exact ⟨last, advance_eq_nil_iff.mp outcome, before, parsed, cutShort_finish whole before⟩
    | cons symbol rest =>
      obtain ⟨_, _, _, refused⟩ := advance_eq_cons_iff.mp outcome
      exact (after (phase_of_refused refused)).elim

theorem placed_parse (symbols : List Symbol) : (parse symbols).root.Placed := by
  rw [placed_iff]
  obtain complete | ⟨reader, _, _, parsed, cut⟩ := parse_cases symbols
  · exact .inl complete
  · rw [parsed]
    exact .inr cut

/-- A missing atom stands for the end of the text, so everything before it was read. -/
theorem consumed_of_missing {symbols : List Symbol}
    (member : missing ∈ (parse symbols).root.preorder) :
    (parse symbols).consumed = symbols.length := by
  obtain complete | ⟨reader, _, _, parsed, _⟩ := parse_cases symbols
  · exact (complete.missing_notMem member).elim
  · rw [parsed]

/-- Where placeholders occur: a tree that is read has at most one missing atom, as its last node and
only if all symbols were read; a quantifier without a bound symbol has it as its body. Atoms hold
no symbol that begins a larger construct. -/
theorem placeholders_only_at_end (symbols : List Symbol) :
    (parse symbols).root.preorder.count missing ≤ 1 ∧
    (missing ∈ (parse symbols).root.preorder →
      (parse symbols).root.preorder.getLast? = some missing ∧
        (parse symbols).consumed = symbols.length) ∧
    (∀ q body, quantified q none body ∈ (parse symbols).root.preorder → body = missing) ∧
    ∀ s, atom (some s) ∈ (parse symbols).root.preorder →
      (∀ q, s ≠ .quantifier q) ∧ s ≠ .negation ∧ s ≠ .successor ∧ s ≠ .opening := by
  have placed := placed_parse symbols
  refine ⟨placed.count_missing_le, fun member => ?_, placed.unbound, fun s member => ?_⟩
  · exact ⟨placed.getLast?_of_missing member, consumed_of_missing member⟩
  · exact Symbol.opensTerm_eq_false_iff.mp (placed.atoms s member)

/-- A parenthesis, an operator and a quantifier are left open at once. -/
theorem placeholders_only_at_end_unclosed :
    let symbols : List Symbol :=
      [.opening, .letter .x, .operator .addition, .quantifier .universal]
    missing ∈ (parse symbols).root.preorder ∧
      (parse symbols).root.preorder.getLast? = some missing ∧
      (parse symbols).consumed = symbols.length := by
  intro symbols
  have absent : missing ∈ (parse symbols).root.preorder := by decide
  exact ⟨absent, (placeholders_only_at_end symbols).2.1 absent⟩

end Permissive

end Arithmetization
