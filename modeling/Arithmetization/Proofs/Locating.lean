import Arithmetization.Text.Blank
import Arithmetization.Text.Place
import Mathlib.Data.List.DropRight

/-! # Where a position of a text is

A text is cut into lines at what ends them, and a position belongs to the line that it is reached
on. The place of a position is found in one pass that looks at two characters at a time. Between a
carriage return and its line feed, the pass counts the carriage return as part of the line; without
the white space at its end, the line is the same.
-/

namespace Arithmetization.Text

/-- The characters that end a line. -/
def lineEnds : List Char := ['\n', '\x0b', '\x0c', '\r', '\u0085', '\u2028', '\u2029']

/-- What ends a line, given what follows it: a carriage return and a line feed do it together. -/
inductive EndsLine : List Char → List Char → Prop where
  | single {c : Char} {rest : List Char} (sign : c ∈ lineEnds) (other : c ≠ '\r') :
    EndsLine [c] rest
  | carriageReturn {rest : List Char} (alone : rest.head? ≠ some '\n') : EndsLine ['\r'] rest
  | both {rest : List Char} : EndsLine ['\r', '\n'] rest

/-- The characters of a single line. -/
def IsLine (line : List Char) : Prop := ∀ c ∈ line, c ∉ lineEnds

/-- A position is at a place of a text. What ends a line belongs to it, and no line begins at the
end of the text. -/
inductive Located : List Char → Nat → Place → Prop where
  | unended {line : List Char} {position : Nat} (clear : IsLine line) :
    Located line position ⟨1, position, line⟩
  | here {line ending rest : List Char} {position : Nat} (clear : IsLine line)
    (ends : EndsLine ending rest) (reached : position < (line ++ ending).length ∨ rest = []) :
    Located (line ++ ending ++ rest) position ⟨1, position, line⟩
  | later {line ending rest : List Char} {position number column : Nat} {found : List Char}
    (clear : IsLine line) (ends : EndsLine ending rest) (more : rest ≠ [])
    (below : Located rest position ⟨number, column, found⟩) :
    Located (line ++ ending ++ rest) ((line ++ ending).length + position)
      ⟨number + 1, column, found⟩

theorem isLineEnd_iff {c : Char} : isLineEnd c = true ↔ c ∈ lineEnds := by
  rw [isLineEnd, lineEnds, List.contains_iff_mem]

theorem IsLine.append {first rest : List Char} (clear : IsLine first) (clear' : IsLine rest) :
    IsLine (first ++ rest) := List.forall_mem_append.mpr ⟨clear, clear'⟩

theorem IsLine.reverse {line : List Char} (clear : IsLine line) : IsLine line.reverse :=
  fun c member => clear c (List.mem_reverse.mp member)

theorem isLine_takeWhile (text : List Char) : IsLine (text.takeWhile (!isLineEnd ·)) := by
  intro c member sign
  have other := List.mem_takeWhile_imp member
  rw [isLineEnd_iff.mpr sign] at other
  contradiction

/-- A character that ends a line does so alone or with the line feed after it. -/
theorem exists_ending {c : Char} (sign : c ∈ lineEnds) (text : List Char) :
    ∃ ending rest, c :: text = ending ++ rest ∧ EndsLine ending rest := by
  by_cases back : c = '\r'
  · subst back
    by_cases feed : text.head? = some '\n'
    · obtain ⟨rest, rfl⟩ := List.head?_eq_some_iff.mp feed
      exact ⟨_, rest, rfl, .both⟩
    · exact ⟨_, text, rfl, .carriageReturn feed⟩
  · exact ⟨_, text, rfl, .single sign back⟩

theorem EndsLine.length_pos {ending rest : List Char} (ends : EndsLine ending rest) :
    1 ≤ ending.length := by
  cases ends <;> simp

/-- The pass is on a line, perhaps between a carriage return and its line feed. The characters of
the line before this point are given in reverse. -/
inductive Begun : List Char → List Char → Prop where
  | inside {before text : List Char} (clear : IsLine before) : Begun before text
  | between {before rest : List Char} (clear : IsLine before) : Begun ('\r' :: before) ('\n' :: rest)

theorem trimEnd_concat_return (line : List Char) : trimEnd (line ++ ['\r']) = trimEnd line := by
  rw [trimEnd, trimEnd, List.reverse_append, List.reverse_singleton, List.singleton_append,
    List.dropWhile_cons_of_pos (by decide)]

/-- The pass stops on the line that it is on. -/
theorem exists_located_here {before text : List Char} {position : Nat} (begun : Begun before text)
    (stops : position = 0 ∨ text.length ≤ 1) :
    ∃ line, Located (before.reverse ++ text) (before.length + position)
        ⟨1, before.length + position, line⟩ ∧
      trimEnd line = trimEnd (before.reverse ++ text.takeWhile (!isLineEnd ·)) := by
  cases begun with
  | inside clear =>
    refine ⟨_, ?_, rfl⟩
    have front := clear.reverse.append (isLine_takeWhile text)
    have whole := List.takeWhile_append_dropWhile (p := (!isLineEnd ·)) (l := text)
    cases rest : text.dropWhile (!isLineEnd ·) with
    | nil =>
      rw [rest, List.append_nil] at whole
      rw [whole] at front ⊢
      exact .unended front
    | cons c rest' =>
      have sign : c ∈ lineEnds := by
        have ended := List.head?_dropWhile_not (!isLineEnd ·) text
        rw [rest] at ended
        simpa [isLineEnd_iff] using ended
      obtain ⟨ending, later, same, ends⟩ := exists_ending sign rest'
      have some := ends.length_pos
      rw [rest, same] at whole
      have located : Located (before.reverse ++ text.takeWhile (!isLineEnd ·) ++ ending ++ later)
          (before.length + position)
          ⟨1, before.length + position, before.reverse ++ text.takeWhile (!isLineEnd ·)⟩ := by
        refine .here front ends ?_
        rcases stops with rfl | short
        · left
          simp only [List.length_append, List.length_reverse]
          omega
        · right
          have total := congrArg List.length whole
          simp only [List.length_append] at total
          exact List.length_eq_zero_iff.mp (by omega)
      rwa [List.append_assoc, List.append_assoc, whole] at located
  | @between before rest clear =>
    refine ⟨before.reverse, ?_, ?_⟩
    · have located : Located (before.reverse ++ ['\r', '\n'] ++ rest)
          (before.length + 1 + position) ⟨1, before.length + 1 + position, before.reverse⟩ := by
        refine .here clear.reverse .both ?_
        rcases stops with rfl | short
        · left
          simp
        · right
          simpa using short
      simpa using located
    · have ended : isLineEnd '\n' = true := by decide
      simp [ended, trimEnd_concat_return]

/-- Where the pass does not see the end of a line, it goes on with the line. -/
theorem Begun.push {before rest : List Char} {c next : Char} (begun : Begun before (c :: next :: rest))
    (goesOn : endsLine c next = false) : Begun (c :: before) (next :: rest) := by
  cases begun with
  | inside clear =>
    by_cases sign : isLineEnd c = true
    · obtain ⟨rfl, rfl⟩ : c = '\r' ∧ next = '\n' := by simpa [endsLine, sign] using goesOn
      exact .between clear
    · refine .inside (List.forall_mem_cons.mpr ⟨?_, clear⟩)
      rwa [isLineEnd_iff] at sign
  | between clear =>
    have ended : endsLine '\n' next = true := rfl
    rw [ended] at goesOn
    contradiction

/-- Where the pass sees the end of a line, the line is complete. -/
theorem Begun.located_later {before rest : List Char} {c next : Char} {position number column : Nat}
    {line : List Char} (begun : Begun before (c :: next :: rest)) (ends : endsLine c next = true)
    (below : Located (next :: rest) position ⟨number, column, line⟩) :
    Located (before.reverse ++ c :: next :: rest) (before.length + (position + 1))
      ⟨number + 1, column, line⟩ := by
  have more : next :: rest ≠ [] := List.cons_ne_nil next rest
  cases begun with
  | inside clear =>
    obtain ⟨sign, alone⟩ : isLineEnd c = true ∧ (c ≠ '\r' ∨ next ≠ '\n') := by
      simpa [endsLine] using ends
    have ending : EndsLine [c] (next :: rest) := by
      by_cases back : c = '\r'
      · subst back
        exact .carriageReturn (by simpa using alone)
      · exact .single (isLineEnd_iff.mp sign) back
    simpa [Nat.add_assoc, Nat.add_comm 1] using Located.later clear.reverse ending more below
  | between clear =>
    simpa [Nat.add_assoc, Nat.add_comm, Nat.add_left_comm] using
      Located.later clear.reverse .both more below

/-- What the pass finds from a point on is where the position is, apart from white space at the end
of the line. -/
theorem exists_located {before text : List Char} (number position : Nat) (begun : Begun before text) :
    ∃ lines line, (placeFrom number before position text).number = number + lines ∧
      Located (before.reverse ++ text) (before.length + position)
        ⟨lines + 1, (placeFrom number before position text).column, line⟩ ∧
      trimEnd line = trimEnd (placeFrom number before position text).line := by
  fun_induction placeFrom number before position text with
  | case1 number before position c next rest ends ih =>
    obtain ⟨lines, line, counted, located, shown⟩ := ih (.inside nofun)
    simp only [List.reverse_nil, List.nil_append, List.length_nil, Nat.zero_add] at located
    exact ⟨lines + 1, line, by omega, begun.located_later ends located, shown⟩
  | case2 number before position c next rest goesOn ih =>
    obtain ⟨lines, line, counted, located, shown⟩ := ih (begun.push (by simpa using goesOn))
    refine ⟨lines, line, counted, ?_, shown⟩
    simpa [Nat.add_assoc, Nat.add_comm 1] using located
  | case3 number before position rest stops =>
    have stopped : position = 0 ∨ rest.length ≤ 1 := by
      match position, rest with
      | 0, _ => exact .inl rfl
      | _, [] => exact .inr (Nat.zero_le 1)
      | _, [_] => exact .inr (Nat.le_refl 1)
      | position + 1, c :: next :: rest => exact (stops position c next rest rfl rfl).elim
    obtain ⟨line, located, shown⟩ := exists_located_here begun stopped
    exact ⟨0, line, rfl, located, shown⟩

/-- The place of a position is where the position is, apart from white space at the end of the
line. -/
theorem exists_located_placeOf (position : Nat) (text : List Char) :
    ∃ line, Located text position
        ⟨(placeOf position text).number, (placeOf position text).column, line⟩ ∧
      trimEnd line = trimEnd (placeOf position text).line := by
  have begun : Begun [] text := .inside nofun
  obtain ⟨lines, line, counted, located, shown⟩ := exists_located 1 position begun
  refine ⟨line, ?_, shown⟩
  rw [placeOf, counted, Nat.add_comm 1]
  simpa using located

/-! ## Only one place -/

theorem EndsLine.exists_sign {ending rest : List Char} (ends : EndsLine ending rest) :
    ∃ c more, ending = c :: more ∧ c ∈ lineEnds := by
  cases ends with
  | single sign other => exact ⟨_, _, rfl, sign⟩
  | carriageReturn alone => exact ⟨_, _, rfl, by decide⟩
  | both => exact ⟨_, _, rfl, by decide⟩

theorem EndsLine.not_isLine {ending rest : List Char} (ends : EndsLine ending rest)
    (line : List Char) : ¬ IsLine (line ++ ending ++ rest) := by
  obtain ⟨c, more, rfl, sign⟩ := ends.exists_sign
  exact fun clear => clear c (by simp) sign

theorem EndsLine.unique {ending rest ending' rest' : List Char} (ends : EndsLine ending rest)
    (ends' : EndsLine ending' rest') (same : ending ++ rest = ending' ++ rest') :
    ending = ending' ∧ rest = rest' := by
  cases ends <;> cases ends' <;> simp_all [eq_comm]

/-- A text is the first line, what ends it and the rest in only one way. -/
theorem eq_of_lines {line ending rest line' ending' rest' : List Char} (clear : IsLine line)
    (clear' : IsLine line') (ends : EndsLine ending rest) (ends' : EndsLine ending' rest')
    (same : line ++ ending ++ rest = line' ++ ending' ++ rest') :
    line = line' ∧ ending = ending' ∧ rest = rest' := by
  induction line generalizing line' with
  | nil =>
    cases line' with
    | nil => exact ⟨rfl, ends.unique ends' same⟩
    | cons c line' =>
      obtain ⟨sign, _, rfl, member⟩ := ends.exists_sign
      obtain rfl : sign = c := (List.cons.inj same).1
      exact absurd member (clear' sign List.mem_cons_self)
  | cons c line ih =>
    cases line' with
    | nil =>
      obtain ⟨sign, _, rfl, member⟩ := ends'.exists_sign
      obtain rfl : c = sign := (List.cons.inj same).1
      exact absurd member (clear c List.mem_cons_self)
    | cons c' line' =>
      obtain ⟨-, others⟩ := List.forall_mem_cons.mp clear
      obtain ⟨-, others'⟩ := List.forall_mem_cons.mp clear'
      obtain ⟨rfl, tails⟩ := List.cons.inj same
      obtain ⟨rfl, ended⟩ := ih others others' tails
      exact ⟨rfl, ended⟩

/-- A position is at only one place. -/
theorem Located.unique {text text' : List Char} {position position' : Nat} {place place' : Place}
    (located : Located text position place) (located' : Located text' position' place')
    (same : text = text') (there : position = position') : place = place' := by
  induction located generalizing text' position' place' with
  | unended clear =>
    cases located' with
    | unended clear' => rw [same, there]
    | here clear' ends' reached' => exact absurd (same ▸ clear) (ends'.not_isLine _)
    | later clear' ends' more' below' => exact absurd (same ▸ clear) (ends'.not_isLine _)
  | here clear ends reached =>
    cases located' with
    | unended clear' => exact absurd (same ▸ clear') (ends.not_isLine _)
    | here clear' ends' reached' =>
      obtain ⟨rfl, -⟩ := eq_of_lines clear clear' ends ends' same
      rw [there]
    | later clear' ends' more' below' =>
      obtain ⟨rfl, rfl, rfl⟩ := eq_of_lines clear clear' ends ends' same
      rcases reached with short | none
      · omega
      · contradiction
  | later clear ends more below ih =>
    cases located' with
    | unended clear' => exact absurd (same ▸ clear') (ends.not_isLine _)
    | here clear' ends' reached' =>
      obtain ⟨rfl, rfl, rfl⟩ := eq_of_lines clear clear' ends ends' same
      rcases reached' with short | none
      · omega
      · contradiction
    | later clear' ends' more' below' =>
      obtain ⟨rfl, rfl, rfl⟩ := eq_of_lines clear clear' ends ends' same
      have place := ih below' rfl (by omega)
      injection place with number column line
      rw [number, column, line]

end Arithmetization.Text
