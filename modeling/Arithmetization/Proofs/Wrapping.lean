import Arithmetization.Text.Wrap
import Mathlib.Algebra.Order.Floor.Div

/-! # Cutting texts into lines

Lines as long as the width are cut from the front of a text until the rest of it fits into one line.
Lines of these lengths that make up the text are determined by it, and so is their number.
-/

namespace Arithmetization.Text

variable {width : Nat} {text line : List Char} {lines : List (List Char)}

/-- The lines of a text: only the last one may be shorter than the width, and it has no characters
only if the text has none. -/
structure IsWrapped (width : Nat) (text : List Char) (lines : List (List Char)) : Prop where
  joined : lines.flatten = text
  full : ∀ line ∈ lines.dropLast, line.length = width
  last : (∃ line, lines.getLast? = some line ∧ 1 ≤ line.length ∧ line.length ≤ width) ∨
    text = [] ∧ lines = [[]]

namespace IsWrapped

theorem ne_nil (wrapped : IsWrapped width text lines) : lines ≠ [] := by
  rintro rfl
  rcases wrapped.last with ⟨line, impossible, _⟩ | ⟨_, impossible⟩ <;> contradiction

/-- One line is enough for a text that is no longer than the width. -/
theorem single_iff : IsWrapped width text [line] ↔ line = text ∧ text.length ≤ width := by
  constructor
  · rintro ⟨joined, -, last⟩
    obtain rfl : line = text := by simpa using joined
    refine ⟨rfl, ?_⟩
    rcases last with ⟨_, found, _, fits⟩ | ⟨rfl, _⟩
    · obtain rfl := Option.some.inj found
      exact fits
    · exact Nat.zero_le _
  · rintro ⟨rfl, fits⟩
    refine ⟨by simp, by simp, ?_⟩
    rcases Nat.eq_zero_or_pos line.length with empty | positive
    · obtain rfl := List.length_eq_zero_iff.mp empty
      exact .inr ⟨rfl, rfl⟩
    · exact .inl ⟨line, rfl, positive, fits⟩

/-- A line with lines after it is full, and the lines after it are those of the rest of the text,
which has characters. -/
theorem cons_iff (more : lines ≠ []) :
    IsWrapped width text (line :: lines) ↔
      line.length = width ∧ ∃ rest, text = line ++ rest ∧ rest ≠ [] ∧
        IsWrapped width rest lines := by
  have others : (line :: lines).dropLast = line :: lines.dropLast :=
    List.dropLast_cons_of_ne_nil more
  have same : (line :: lines).getLast? = lines.getLast? := List.getLast?_cons_of_ne_nil more
  constructor
  · rintro ⟨joined, full, last⟩
    rw [others, List.forall_mem_cons] at full
    rcases last with ⟨final, found, positive, fits⟩ | ⟨_, impossible⟩
    · rw [same] at found
      have characters : lines.flatten ≠ [] := by
        intro empty
        have blank := List.flatten_eq_nil_iff.mp empty final (List.mem_of_getLast? found)
        simp [blank] at positive
      exact ⟨full.1, lines.flatten, joined.symm, characters, rfl, full.2,
        .inl ⟨final, found, positive, fits⟩⟩
    · exact absurd (List.cons.inj impossible).2 more
  · rintro ⟨full, rest, rfl, characters, joined, others', last⟩
    refine ⟨by rw [List.flatten_cons, joined], ?_, ?_⟩
    · rw [others]
      exact List.forall_mem_cons.mpr ⟨full, others'⟩
    · rw [same]
      exact last.imp_right fun ⟨empty, _⟩ => absurd empty characters

/-- As many lines as are needed, and one line for a text without characters. -/
theorem length_eq (positive : 0 < width) (wrapped : IsWrapped width text lines) :
    lines.length = max 1 (text.length ⌈/⌉ width) := by
  induction lines generalizing text with
  | nil => exact absurd rfl wrapped.ne_nil
  | cons line lines ih =>
    by_cases more : lines = []
    · subst more
      obtain ⟨-, fits⟩ := single_iff.mp wrapped
      have enough : text.length ⌈/⌉ width ≤ 1 := by
        rwa [ceilDiv_le_iff_le_mul positive, Nat.mul_one]
      rw [Nat.max_eq_left enough]
      rfl
    · obtain ⟨full, rest, rfl, characters, wrapped⟩ := (cons_iff more).mp wrapped
      have nonempty : 0 < rest.length := List.length_pos_iff.mpr characters
      have needed : 1 ≤ (rest.length + width - 1) / width :=
        (Nat.le_div_iff_mul_le positive).mpr (by omega)
      have next : (width + rest.length + width - 1) / width =
          (rest.length + width - 1) / width + 1 := by
        rw [← Nat.add_div_right _ positive]
        congr 1
        omega
      rw [List.length_cons, ih wrapped, List.length_append, full, Nat.ceilDiv_eq_add_pred_div,
        Nat.ceilDiv_eq_add_pred_div, next]
      omega

end IsWrapped

/-- Cutting off one line after another gives the lines of the text. -/
theorem isWrapped_wrapAt (width : Nat) (text : List Char) :
    IsWrapped (width + 1) text (wrapAt width text) := by
  fun_induction wrapAt width text with
  | case1 text short =>
    exact IsWrapped.single_iff.mpr ⟨rfl, List.drop_eq_nil_iff.mp short⟩
  | case2 text long ih =>
    have longer : width + 1 < text.length := by
      simpa using long
    refine (IsWrapped.cons_iff ih.ne_nil).mpr
      ⟨?_, text.drop (width + 1), (List.take_append_drop _ _).symm, long, ih⟩
    rw [List.length_take, Nat.min_eq_left (Nat.le_of_lt longer)]

/-- A text has no other lines than those that are cut off from it. -/
theorem IsWrapped.eq_wrapAt (wrapped : IsWrapped (width + 1) text lines) :
    lines = wrapAt width text := by
  induction lines generalizing text with
  | nil => exact absurd rfl wrapped.ne_nil
  | cons line lines ih =>
    by_cases more : lines = []
    · subst more
      obtain ⟨rfl, fits⟩ := single_iff.mp wrapped
      rw [wrapAt, if_pos (List.drop_eq_nil_iff.mpr fits)]
    · obtain ⟨full, rest, rfl, characters, wrapped⟩ := (cons_iff more).mp wrapped
      have after : (line ++ rest).drop (width + 1) = rest := List.drop_left' full
      rw [wrapAt, if_neg (by rwa [after]), List.take_left' full, after, ← ih wrapped]

/-- The lines that a text is cut into are the only ones of their lengths that make it up. -/
theorem isWrapped_iff_wrap : IsWrapped (max width 1) text lines ↔ wrap width text = lines := by
  have broad : max width 1 = width - 1 + 1 := by omega
  rw [broad, wrap]
  constructor
  · intro wrapped
    exact wrapped.eq_wrapAt.symm
  · rintro rfl
    exact isWrapped_wrapAt (width - 1) text

/-- Wrapping loses nothing of a text, of digits or of other characters. The lines put together are
the text; all but the last are as long as the width, where the width zero counts as one; the last is
neither empty nor longer, or is the only line of an empty text. No other lines are like this, and
there are as many of them as the length of the text needs. -/
theorem wrap_loses_nothing (width : Nat) (text : List Char) :
    (∀ lines, wrap width text = lines ↔ IsWrapped (max width 1) text lines) ∧
    (wrap width text).length = max 1 (text.length ⌈/⌉ max width 1) := by
  have wrapped : IsWrapped (max width 1) text (wrap width text) := isWrapped_iff_wrap.mpr rfl
  exact ⟨fun lines => isWrapped_iff_wrap.symm, wrapped.length_eq (Nat.le_max_right _ _)⟩

example : (wrap 3 "123456".toList, wrap 0 "12".toList) =
    (["123".toList, "456".toList], ["1".toList, "2".toList]) := by cbv

end Arithmetization.Text
