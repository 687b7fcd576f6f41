import Arithmetization.Json
import Arithmetization.Proofs.Decimal.Reading

/-! # The lines of a value

A value is laid out on lines. Nothing, a number and a text take one line, and so do a list and a
record without elements. The brackets of another list or record have lines of their own, with the
lines of the elements between them, two spaces further in; each element but the last ends with a
comma. This layout knows nothing of nesting levels, which the printer of values goes by.
-/

namespace Arithmetization.Json

/-! ## Layout -/

/-- How a character is written between quotes. -/
def spelling : Char → String
  | '"' => "\\\""
  | '\\' => "\\\\"
  | '\x08' => "\\b"
  | '\x0c' => "\\f"
  | '\n' => "\\n"
  | '\r' => "\\r"
  | '\t' => "\\t"
  | c =>
    if c < ' ' then
      "\\u00" ++ String.ofList [Nat.digitChar (c.toNat / 16), Nat.digitChar (c.toNat % 16)]
    else String.singleton c

/-- A text between quotes. -/
def quoted (content : String) : String :=
  "\"" ++ String.join (content.toList.map spelling) ++ "\""

/-- Lines two spaces further in. -/
def inward (lines : List String) : List String := lines.map fun line => "  " ++ line

/-- Lines with a comma at the end. -/
def withComma : List String → List String
  | [] => []
  | [line] => [line ++ ","]
  | line :: lines => line :: withComma lines

/-- Lines with a key at the beginning. -/
def withKey (key : String) : List String → List String
  | [] => []
  | line :: lines => (quoted key ++ ": " ++ line) :: lines

mutual

/-- The lines of a value. -/
def lines : Json → List String
  | null => ["null"]
  | number value => [toString value]
  | text content => [quoted content]
  | list [] => ["[]"]
  | list (item :: items) => "[" :: inward (itemLines (item :: items)) ++ ["]"]
  | record [] => ["\x7b\x7d"]
  | record (member :: members) =>
    "\x7b" :: inward (memberLines (member :: members)) ++ ["\x7d"]

/-- The lines of the items of a list. -/
def itemLines : List Json → List String
  | [] => []
  | [item] => item.lines
  | item :: next :: items => withComma item.lines ++ itemLines (next :: items)

/-- The lines of the members of a record. -/
def memberLines : List (String × Json) → List String
  | [] => []
  | [(key, value)] => withKey key value.lines
  | (key, value) :: next :: members =>
    withComma (withKey key value.lines) ++ memberLines (next :: members)

end

/-! ## Texts between quotes -/

theorem escapeChar_eq_spelling (c : Char) : escapeChar c = (spelling c).toList := by
  rw [spelling.eq_def]
  split
  iterate 7 exact (by decide)
  next quote backslash b f n r t =>
    have control : c < ' ' ↔ c.toNat < 0x20 := Iff.rfl
    simp only [escapeChar, if_neg quote, if_neg backslash, if_neg b, if_neg f, if_neg n, if_neg r,
      if_neg t, control]
    split
    · next below =>
      have digit : c.toNat / 16 % 16 = c.toNat / 16 := Nat.mod_eq_of_lt (by omega)
      simp [Text.twoHexDigits, digit]
    · simp

theorem quote_eq_quoted (content : String) : quote content = quoted content := by
  have spelled : escapeChar = fun c => (spelling c).toList := funext escapeChar_eq_spelling
  apply String.toList_inj.mp
  simp [quote, quoted, spelled, String.toList_join, List.flatMap_map]

/-- Whether a character is written between quotes as it is. -/
def IsPlain (c : Char) : Prop := 0x20 ≤ c.toNat ∧ c ≠ '"' ∧ c ≠ '\\'

instance (c : Char) : Decidable (IsPlain c) :=
  inferInstanceAs (Decidable (0x20 ≤ c.toNat ∧ c ≠ '"' ∧ c ≠ '\\'))

theorem spelling_of_isPlain {c : Char} (plain : IsPlain c) : spelling c = String.singleton c := by
  obtain ⟨printable, noQuote, noBackslash⟩ := plain
  rw [spelling.eq_def]
  split
  · contradiction
  · contradiction
  iterate 5 exact absurd printable (by decide)
  exact if_neg (Nat.not_lt.mpr printable)

/-- A text is put between quotes as it is if all its characters are. -/
theorem quoted_of_isPlain {content : String} (plain : ∀ c ∈ content.toList, IsPlain c) :
    quoted content = "\"" ++ content ++ "\"" := by
  have letters : content.toList.map (String.toList ∘ spelling) = content.toList.map fun c => [c] := by
    apply List.map_congr_left
    intro c member
    rw [Function.comp_apply, spelling_of_isPlain (plain c member), String.toList_singleton]
  have joined : (content.toList.map (String.toList ∘ spelling)).flatten = content.toList := by
    rw [letters, ← List.flatMap_def, List.flatMap_singleton']
  apply String.toList_inj.mp
  simp [quoted, String.toList_join, List.flatMap_def, joined]

theorem isPlain_of_isDigit {c : Char} (digit : c.isDigit) : IsPlain c := by
  have least := (Decimal.toNat_of_isDigit digit).1
  exact ⟨by omega, Decimal.ne_of_isDigit digit rfl, Decimal.ne_of_isDigit digit rfl⟩

theorem quoted_toString (n : Nat) : quoted (toString n) = "\"" ++ toString n ++ "\"" := by
  refine quoted_of_isPlain fun c member => ?_
  rw [Decimal.toList_toString] at member
  exact isPlain_of_isDigit (Decimal.isDigit_of_mem_digits member)

/-! ## Lines put together -/

section

variable {lines : List String}

theorem withComma_ne_nil (some : lines ≠ []) : withComma lines ≠ [] := by
  rw [withComma.eq_def]
  split <;> simp_all

theorem withKey_ne_nil (key : String) (some : lines ≠ []) : withKey key lines ≠ [] := by
  cases lines with
  | nil => contradiction
  | cons line lines => simp [withKey]

theorem intercalate_withComma (separator : String) (some : lines ≠ []) :
    separator.intercalate (withComma lines) = separator.intercalate lines ++ "," := by
  induction lines with
  | nil => contradiction
  | cons line lines ih =>
    cases lines with
    | nil => simp [withComma]
    | cons next lines =>
      have more := withComma_ne_nil (List.cons_ne_nil next lines)
      rw [withComma, String.intercalate_cons_of_ne_nil more, ih (List.cons_ne_nil next lines),
        String.intercalate_cons_cons, String.append_assoc, String.append_assoc, String.append_assoc]
      simp

theorem intercalate_withKey (separator key : String) (some : lines ≠ []) :
    separator.intercalate (withKey key lines) =
      quoted key ++ ": " ++ separator.intercalate lines := by
  cases lines with
  | nil => contradiction
  | cons line lines => simp [withKey]

theorem newline_succ (level : Nat) : newline (level + 1) = newline level ++ "  " := by
  apply String.toList_inj.mp
  simp [newline, Nat.mul_succ, List.replicate_succ']

theorem intercalate_inward (level : Nat) (some : lines ≠ []) :
    (newline level).intercalate (inward lines) =
      "  " ++ (newline (level + 1)).intercalate lines := by
  induction lines with
  | nil => contradiction
  | cons line lines ih =>
    cases lines with
    | nil => simp [inward]
    | cons next lines =>
      have below := ih (List.cons_ne_nil next lines)
      rw [inward, List.map_cons, List.map_cons, String.intercalate_cons_cons, ← List.map_cons,
        ← inward, below, String.intercalate_cons_cons, newline_succ]
      simp [String.append_assoc]

end

theorem lines_ne_nil (value : Json) : value.lines ≠ [] := by
  cases value with
  | list items => cases items <;> simp [lines]
  | record members => cases members <;> simp [lines]
  | _ => simp [lines]

theorem itemLines_ne_nil (item : Json) (items : List Json) : itemLines (item :: items) ≠ [] := by
  cases items with
  | nil => exact item.lines_ne_nil
  | cons next items => simp [itemLines, withComma_ne_nil item.lines_ne_nil]

theorem memberLines_ne_nil (member : String × Json) (members : List (String × Json)) :
    memberLines (member :: members) ≠ [] := by
  obtain ⟨key, value⟩ := member
  have first := withKey_ne_nil key value.lines_ne_nil
  cases members with
  | nil => exact first
  | cons next members => simp [memberLines, withComma_ne_nil first]

/-- Lines between brackets, where each bracket is on a line of its own. -/
theorem intercalate_bracketed (level : Nat) (opening closing : String) {lines : List String}
    (some : lines ≠ []) :
    (newline level).intercalate (opening :: inward lines ++ [closing]) =
      opening ++ newline (level + 1) ++ (newline (level + 1)).intercalate lines ++
        newline level ++ closing := by
  have inner : inward lines ≠ [] := by simpa [inward] using some
  rw [String.intercalate_append_of_ne_nil (List.cons_ne_nil _ _) (List.cons_ne_nil _ _),
    String.intercalate_cons_of_ne_nil inner, intercalate_inward level some,
    String.intercalate_singleton, newline_succ]
  simp only [String.append_assoc]

/-- A value is printed at a nesting level as its lines, with the indentation of the level. -/
def IsLaidOut (level : Nat) (value : Json) : Prop :=
  value.pretty level = (newline level).intercalate value.lines

section

variable {level : Nat}

theorem items_laidOut {item : Json} {items : List Json}
    (known : ∀ value ∈ item :: items, IsLaidOut level value) :
    item.pretty level ++ prettyItems level items =
      (newline level).intercalate (itemLines (item :: items)) := by
  induction items generalizing item with
  | nil =>
    rw [prettyItems, itemLines, String.append_empty]
    exact known item List.mem_cons_self
  | cons next items ih =>
    obtain ⟨first, known⟩ := List.forall_mem_cons.mp known
    rw [prettyItems, itemLines,
      String.intercalate_append_of_ne_nil (withComma_ne_nil item.lines_ne_nil)
        (itemLines_ne_nil next items),
      intercalate_withComma _ item.lines_ne_nil, ← first, ← ih known]
    simp only [String.append_assoc]

theorem members_laidOut {member : String × Json} {members : List (String × Json)}
    (known : ∀ other ∈ member :: members, IsLaidOut level other.2) :
    quote member.1 ++ ": " ++ member.2.pretty level ++ prettyMembers level members =
      (newline level).intercalate (memberLines (member :: members)) := by
  induction members generalizing member with
  | nil =>
    have first : IsLaidOut level member.2 := known member List.mem_cons_self
    rw [prettyMembers, memberLines, intercalate_withKey _ _ member.2.lines_ne_nil, ← first,
      String.append_empty, quote_eq_quoted]
  | cons next members ih =>
    obtain ⟨first, known⟩ := List.forall_mem_cons.mp known
    have keyed := withKey_ne_nil member.1 member.2.lines_ne_nil
    rw [prettyMembers, memberLines,
      String.intercalate_append_of_ne_nil (withComma_ne_nil keyed) (memberLines_ne_nil next members),
      intercalate_withComma _ keyed, intercalate_withKey _ _ member.2.lines_ne_nil, ← first,
      ← ih known, quote_eq_quoted member.1]
    simp only [String.append_assoc]

theorem isLaidOut_list {items : List Json}
    (known : ∀ item ∈ items, IsLaidOut (level + 1) item) : IsLaidOut level (list items) := by
  cases items with
  | nil => simp [IsLaidOut, pretty, lines]
  | cons item items =>
    rw [IsLaidOut, pretty, lines, intercalate_bracketed level _ _ (itemLines_ne_nil item items),
      ← items_laidOut known, ← String.append_assoc]

theorem isLaidOut_record {members : List (String × Json)}
    (known : ∀ member ∈ members, IsLaidOut (level + 1) member.2) :
    IsLaidOut level (record members) := by
  cases members with
  | nil => simp [IsLaidOut, pretty, lines]
  | cons member members =>
    rw [IsLaidOut, pretty, lines,
      intercalate_bracketed level _ _ (memberLines_ne_nil member members),
      ← members_laidOut known]
    simp only [String.append_assoc]

end

theorem isLaidOut (level : Nat) : (value : Json) → IsLaidOut level value
  | null => by simp [IsLaidOut, pretty, lines]
  | number n => by simp [IsLaidOut, pretty, lines, Decimal.text_eq_toString]
  | text content => by simp [IsLaidOut, pretty, lines, quote_eq_quoted]
  | list items => isLaidOut_list fun item _ => isLaidOut (level + 1) item
  | record members => isLaidOut_record fun member _ => isLaidOut (level + 1) member.2
termination_by value => sizeOf value
decreasing_by
  · have smaller := List.sizeOf_lt_of_mem ‹item ∈ items›
    simp only [list.sizeOf_spec]
    omega
  · have smaller := List.sizeOf_lt_of_mem ‹member ∈ members›
    have part : sizeOf member = 1 + sizeOf member.1 + sizeOf member.2 := rfl
    simp only [record.sizeOf_spec]
    omega

/-- The text of a value is made up of its lines, with nothing after the last one. -/
theorem pretty_zero_eq_intercalate (value : Json) :
    value.pretty 0 = "\n".intercalate value.lines := isLaidOut 0 value

end Arithmetization.Json
