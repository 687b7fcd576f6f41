import Arithmetization.Proofs.Decimal
import Mathlib.Data.List.DropRight

/-! # Numbers are read from decorated decimals

A written number may be decorated: with zeros before its digits, with underscores after the first
digit, with a plus sign and with white space around everything. The texts that are read as a number
are exactly the decorated decimals of the number.
-/

namespace Arithmetization

namespace Text

/-- White space around a text without any is what trimming removes. -/
theorem trim_surrounded {before core after : List Char} (blankBefore : ∀ c ∈ before, isBlank c)
    (solid : ∀ c ∈ core, ¬ isBlank c) (blankAfter : ∀ c ∈ after, isBlank c) :
    trim (before ++ core ++ after) = core := by
  rw [trim, List.append_assoc, List.dropWhile_append_of_pos blankBefore]
  cases core with
  | nil =>
    rw [List.nil_append, List.dropWhile_eq_nil_iff.mpr blankAfter]
    rfl
  | cons c core =>
    have first := solid c List.mem_cons_self
    have blankAfter' : ∀ c ∈ after.reverse, isBlank c :=
      fun c member => blankAfter c (List.mem_reverse.mp member)
    have kept : (c :: core).rdropWhile isBlank = c :: core :=
      List.rdropWhile_eq_self_iff.mpr fun some => solid _ (List.getLast_mem some)
    rw [List.cons_append, List.dropWhile_cons_of_neg first, ← List.cons_append, trimEnd,
      List.reverse_append, List.dropWhile_append_of_pos blankAfter']
    exact kept

/-- Trimming removes nothing but white space. -/
theorem exists_surroundings (text : List Char) : ∃ before after,
    (∀ c ∈ before, isBlank c) ∧ (∀ c ∈ after, isBlank c) ∧ before ++ trim text ++ after = text := by
  refine ⟨text.takeWhile isBlank, (text.dropWhile isBlank).rtakeWhile isBlank,
    fun c => List.mem_takeWhile_imp, fun c => List.mem_rtakeWhile_imp, ?_⟩
  have ended : trim text ++ (text.dropWhile isBlank).rtakeWhile isBlank = text.dropWhile isBlank :=
    List.rdropWhile_append_rtakeWhile
  rw [List.append_assoc, ended, List.takeWhile_append_dropWhile]

end Text

namespace Decimal

/-! ## Digits -/

theorem isDigit_of_mem_digits {n : Nat} {c : Char} (member : c ∈ digits n) : c.isDigit := by
  rw [digits_eq_toDigits] at member
  exact Nat.isDigit_of_mem_toDigits (by decide) (by decide) member

theorem notMem_digits {c : Char} (other : c.isDigit = false) (n : Nat) : c ∉ digits n := by
  intro member
  rw [isDigit_of_mem_digits member] at other
  contradiction

theorem digits_ne_nil (n : Nat) : digits n ≠ [] := by
  rw [digits_eq_toDigits]
  exact Nat.toDigits_ne_nil

theorem exists_digits_cons (n : Nat) : ∃ c rest, digits n = c :: rest ∧ c.isDigit := by
  obtain ⟨c, rest, written⟩ := List.exists_cons_of_ne_nil (digits_ne_nil n)
  refine ⟨c, rest, written, isDigit_of_mem_digits (n := n) ?_⟩
  rw [written]
  exact List.mem_cons_self

/-- Zeros before the digits of a number do not change what is read. -/
theorem value_zeros_digits (zeros n : Nat) : value (List.replicate zeros '0' ++ digits n) = n := by
  have leading : value (List.replicate zeros '0') = 0 := Nat.ofDigitChars_replicate_zero
  have own : value (Nat.toDigits 10 n) = n := Nat.ofDigitChars_ten_toDigits
  rw [value] at leading own ⊢
  rw [List.foldl_append, leading, digits_eq_toDigits, own]

theorem digits_injective : Function.Injective digits :=
  Function.LeftInverse.injective (value_zeros_digits 0)

theorem text_injective : Function.Injective text := by
  intro n n' same
  rw [text, text, String.ofList_inj] at same
  exact digits_injective same

theorem value_concat (text : List Char) (c : Char) :
    value (text ++ [c]) = 10 * value text + (c.toNat - '0'.toNat) := by
  rw [value, List.foldl_append]
  rfl

/-- Digits are written one after the other, without zeros before them. -/
theorem digits_concat {n d : Nat} (positive : 0 < n) (digit : d < 10) :
    digits (10 * n + d) = digits n ++ digits d := by
  simp only [digits_eq_toDigits]
  exact (Nat.toDigits_append_toDigits (by decide) positive digit).symm

theorem toNat_of_isDigit {c : Char} (digit : c.isDigit) : 48 ≤ c.toNat ∧ c.toNat ≤ 57 :=
  Char.isDigit_iff_toNat.mp digit

theorem ne_of_isDigit {c d : Char} (digit : c.isDigit = true) (other : d.isDigit = false) :
    c ≠ d := by
  rintro rfl
  rw [digit] at other
  contradiction

theorem lt_ten_of_isDigit {c : Char} (digit : c.isDigit) : c.toNat - '0'.toNat < 10 := by
  obtain ⟨_, largest⟩ := toNat_of_isDigit digit
  have zero : '0'.toNat = 48 := rfl
  omega

/-- The digits of what one digit stands for are the digit itself. -/
theorem digits_of_isDigit {c : Char} (digit : c.isDigit) : digits (c.toNat - '0'.toNat) = [c] := by
  have written : ∀ d < 10, Nat.digitChar d = Char.ofNat (d + '0'.toNat) := by decide
  have small := lt_ten_of_isDigit digit
  rw [digits_eq_toDigits, Nat.toDigits_of_lt_base small, written _ small, Nat.sub_add_cancel,
    Char.ofNat_toNat]
  exact (toNat_of_isDigit digit).1

/-- Digits are zeros followed by the digits of the number that they write. -/
theorem exists_zeros {text : List Char} (nonempty : text ≠ []) (all : ∀ c ∈ text, c.isDigit) :
    ∃ zeros, text = List.replicate zeros '0' ++ digits (value text) := by
  induction text using List.reverseRecOn with
  | nil => contradiction
  | append_singleton text c ih =>
    have digit := all c (List.mem_append_right _ List.mem_cons_self)
    rw [value_concat]
    rcases eq_or_ne text [] with rfl | nonempty'
    · refine ⟨0, ?_⟩
      rw [value, List.foldl_nil, Nat.mul_zero, Nat.zero_add, digits_of_isDigit digit]
      rfl
    · obtain ⟨zeros, front⟩ := ih nonempty' fun d member => all d (List.mem_append_left _ member)
      rcases Nat.eq_zero_or_pos (value text) with none | positive
      · -- Only zeros were read before the last digit.
        refine ⟨zeros + 1, ?_⟩
        rw [none, Nat.mul_zero, Nat.zero_add, digits_of_isDigit digit, List.replicate_succ']
        rw [none] at front
        rw [front]
        rfl
      · refine ⟨zeros, ?_⟩
        rw [digits_concat positive (lt_ten_of_isDigit digit), digits_of_isDigit digit,
          ← List.append_assoc, ← front]

/-! ## Texts -/

section

variable {body : List Char} {number : Nat}

theorem filter_isDigit (known : ∀ c ∈ body, c.isDigit ∨ c = '_') :
    body.filter Char.isDigit = body.filter (· ≠ '_') := by
  apply List.filter_congr
  intro c member
  rcases known c member with digit | rfl
  · have other : c ≠ '_' := ne_of_isDigit digit rfl
    simp [digit, other]
  · rfl

/-- A text of zeros and the digits of a number, besides underscores after the first one, begins with
a digit and has no other characters. -/
theorem exists_first_digit {zeros : Nat} (begins : body.head? ≠ some '_')
    (written : body.filter (· ≠ '_') = List.replicate zeros '0' ++ digits number) :
    ∃ c rest, body = c :: rest ∧ c.isDigit ∧ ∀ d ∈ rest, d.isDigit ∨ d = '_' := by
  have known : ∀ c ∈ body, c.isDigit ∨ c = '_' := by
    intro c member
    by_cases underscore : c = '_'
    · exact .inr underscore
    · have kept : c ∈ body.filter (· ≠ '_') :=
        List.mem_filter.mpr ⟨member, by simpa using underscore⟩
      rw [written, List.mem_append, List.mem_replicate] at kept
      rcases kept with ⟨_, rfl⟩ | digit
      · exact .inl rfl
      · exact .inl (isDigit_of_mem_digits digit)
  cases body with
  | nil => exact (digits_ne_nil number (List.append_eq_nil_iff.mp written.symm).2).elim
  | cons c rest =>
    refine ⟨c, rest, rfl, ?_, fun d member => known d (List.mem_cons_of_mem c member)⟩
    rcases known c List.mem_cons_self with digit | rfl
    · exact digit
    · exact (begins rfl).elim

/-- The unsigned texts of a number, digit by digit. -/
theorem ofUnsigned?_eq_some_iff : ofUnsigned? body = some number ↔
    body.head? ≠ some '_' ∧
      ∃ zeros, body.filter (· ≠ '_') = List.replicate zeros '0' ++ digits number := by
  constructor
  · intro read
    cases body with
    | nil => contradiction
    | cons c rest =>
      rw [ofUnsigned?, Option.ite_none_right_eq_some, Bool.and_eq_true, List.all_eq_true] at read
      obtain ⟨⟨digit, others⟩, same⟩ := read
      obtain rfl := Option.some.inj same
      have known : ∀ d ∈ c :: rest, d.isDigit ∨ d = '_' := by
        intro d member
        rcases List.mem_cons.mp member with rfl | member
        · exact .inl digit
        · simpa using others d member
      refine ⟨?_, ?_⟩
      · intro underscore
        obtain rfl := Option.some.inj underscore
        contradiction
      · rw [← filter_isDigit known]
        apply exists_zeros
        · rw [List.filter_cons_of_pos digit]
          exact List.cons_ne_nil _ _
        · intro d member
          exact (List.mem_filter.mp member).2
  · rintro ⟨begins, zeros, written⟩
    obtain ⟨c, rest, rfl, digit, others⟩ := exists_first_digit begins written
    have known : ∀ d ∈ c :: rest, d.isDigit ∨ d = '_' :=
      List.forall_mem_cons.mpr ⟨.inl digit, others⟩
    have accepted : rest.all (fun d => d.isDigit || d = '_') := by
      simpa using others
    rw [ofUnsigned?, digit, accepted, Bool.and_self, if_pos rfl, filter_isDigit known, written,
      value_zeros_digits]

end

/-- A text is the decimal of a number with decorations. -/
inductive Decorated (number : Nat) : List Char → Prop where
  | intro {before sign body after : List Char} {zeros : Nat} (signed : sign = [] ∨ sign = ['+'])
    (begins : body.head? ≠ some '_')
    (written : body.filter (· ≠ '_') = List.replicate zeros '0' ++ digits number)
    (blankBefore : ∀ c ∈ before, Text.isBlank c) (blankAfter : ∀ c ∈ after, Text.isBlank c) :
    Decorated number (before ++ (sign ++ body) ++ after)

theorem not_isBlank_of_isDigit {c : Char} (digit : c.isDigit) : ¬ Text.isBlank c := by
  obtain ⟨least, largest⟩ := toNat_of_isDigit digit
  simp only [Text.isBlank, Text.isWithin, Text.blankRanges, List.any_cons, List.any_nil,
    Bool.or_eq_true, Bool.and_eq_true, decide_eq_true_eq, Bool.false_eq_true, or_false]
  omega

/-- At most a plus sign is taken away. -/
theorem exists_sign (text : List Char) :
    ∃ sign, (sign = [] ∨ sign = ['+']) ∧ sign ++ withoutSign text = text := by
  unfold withoutSign
  split
  · exact ⟨[], .inl rfl, rfl⟩
  · exact ⟨['+'], .inr rfl, rfl⟩
  · exact ⟨[], .inl rfl, rfl⟩

/-- A plus sign before a digit is taken away. -/
theorem withoutSign_of_digit {sign rest : List Char} {c : Char} (signed : sign = [] ∨ sign = ['+'])
    (digit : c.isDigit) : withoutSign (sign ++ c :: rest) = c :: rest := by
  have other : c ≠ '+' := ne_of_isDigit digit rfl
  rcases signed with rfl | rfl
  · simp [withoutSign, other]
  · simp [withoutSign, other]

/-- Between the white space around it, a decorated decimal has none. -/
theorem solid_of_digits {sign rest : List Char} {c : Char} (signed : sign = [] ∨ sign = ['+'])
    (digit : c.isDigit) (others : ∀ d ∈ rest, d.isDigit ∨ d = '_') :
    ∀ d ∈ sign ++ c :: rest, ¬ Text.isBlank d := by
  intro d member
  rcases List.mem_append.mp member with inSign | inRest
  · have plus : d = '+' := by
      rcases signed with rfl | rfl
      · contradiction
      · exact List.mem_singleton.mp inSign
    rw [plus]
    decide
  · rcases List.mem_cons.mp inRest with rfl | inRest
    · exact not_isBlank_of_isDigit digit
    · rcases others d inRest with digit' | rfl
      · exact not_isBlank_of_isDigit digit'
      · decide

/-- The texts that are read as a number are its decorated decimals. -/
theorem ofText?_eq_some_iff {text : String} {number : Nat} :
    ofText? text = some number ↔ Decorated number text.toList := by
  rw [ofText?]
  constructor
  · intro read
    obtain ⟨begins, zeros, written⟩ := ofUnsigned?_eq_some_iff.mp read
    obtain ⟨before, after, blankBefore, blankAfter, trimmed⟩ := Text.exists_surroundings text.toList
    obtain ⟨sign, signed, whole⟩ := exists_sign (Text.trim text.toList)
    rw [← trimmed, ← whole]
    exact .intro signed begins written blankBefore blankAfter
  · intro decorated
    generalize text.toList = chars at decorated ⊢
    cases decorated with
    | intro signed begins written blankBefore blankAfter =>
      obtain ⟨c, rest, rfl, digit, others⟩ := exists_first_digit begins written
      rw [Text.trim_surrounded blankBefore (solid_of_digits signed digit others) blankAfter,
        withoutSign_of_digit signed digit]
      exact ofUnsigned?_eq_some_iff.mpr ⟨begins, _, written⟩

/-- All other texts are refused. -/
theorem ofText?_eq_none_iff {text : String} :
    ofText? text = none ↔ ∀ number, ¬ Decorated number text.toList := by
  rw [Option.eq_none_iff_forall_not_mem]
  exact forall_congr' fun number => not_congr ofText?_eq_some_iff

end Decimal

end Arithmetization
