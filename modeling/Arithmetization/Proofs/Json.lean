import Arithmetization.Json
import Arithmetization.Proofs.Decimal.Reading

/-! # The text of a value determines the value

The text of a value tells the value and where the text ends, whatever follows it. The first
character tells the form. A text in quotes ends at the first quote that is not escaped, and a number
ends with its digits, so only after a number the following text matters: it must not begin with a
digit. Lists and records go on with a comma or end with a line break.
-/

namespace Arithmetization.Json

/-! ## Texts in quotes -/

/-- The character that a text in quotes goes on with and what follows it; there is none at the quote
that ends the text. -/
def readChar? : List Char → Option (Char × List Char)
  | [] => none
  | '"' :: _ => none
  | '\\' :: 'b' :: rest => some ('\x08', rest)
  | '\\' :: 'f' :: rest => some ('\x0c', rest)
  | '\\' :: 'n' :: rest => some ('\n', rest)
  | '\\' :: 'r' :: rest => some ('\r', rest)
  | '\\' :: 't' :: rest => some ('\t', rest)
  | '\\' :: 'u' :: a :: b :: c :: d :: rest => (Text.hexChar? [a, b, c, d]).map (·, rest)
  | '\\' :: c :: rest => some (c, rest)
  | c :: rest => some (c, rest)

theorem hexChar?_twoHexDigits :
    ∀ n < 0x20, Text.hexChar? ('0' :: '0' :: Text.twoHexDigits n) = some (Char.ofNat n) := by
  decide

theorem readChar?_cons {c : Char} (unquoted : c ≠ '"') (plain : c ≠ '\\') (rest : List Char) :
    readChar? (c :: rest) = some (c, rest) := by
  rw [readChar?.eq_def]
  split <;> simp_all

theorem readChar?_escapeChar (c : Char) (rest : List Char) :
    readChar? (escapeChar c ++ rest) = some (c, rest) := by
  rw [escapeChar]
  split_ifs with quote backslash b f n r t control
  iterate 7
    · subst c
      rfl
  · have hex := hexChar?_twoHexDigits c.toNat control
    rw [Char.ofNat_toNat] at hex
    exact congrArg (Option.map (·, rest)) hex
  · exact readChar?_cons quote backslash rest

/-- A quoted text is determined by any text that begins with it, and so is where it ends. -/
theorem quoted_inj {content content' rest rest' : List Char}
    (same : content.flatMap escapeChar ++ '"' :: rest =
      content'.flatMap escapeChar ++ '"' :: rest') : content = content' ∧ rest = rest' := by
  induction content generalizing content' with
  | nil =>
    cases content' with
    | nil => exact ⟨rfl, (List.cons.inj same).2⟩
    | cons c' content' =>
      have next := congrArg readChar? same
      rw [List.flatMap_cons, List.append_assoc, readChar?_escapeChar] at next
      contradiction
  | cons c content ih =>
    have next := congrArg readChar? same
    rw [List.flatMap_cons, List.append_assoc, readChar?_escapeChar] at next
    cases content' with
    | nil => contradiction
    | cons c' content' =>
      rw [List.flatMap_cons, List.append_assoc, readChar?_escapeChar] at next
      obtain ⟨rfl, later⟩ := Prod.mk.inj (Option.some.inj next)
      obtain ⟨rfl, ends⟩ := ih later
      exact ⟨rfl, ends⟩

/-! ## Numbers -/

/-- Text that does not go on with a digit. -/
def EndsNumber (rest : List Char) : Prop := ∀ c ∈ rest.head?, c.isDigit = false

theorem takeWhile_digits {rest : List Char} (ends : EndsNumber rest) (n : Nat) :
    (Decimal.digits n ++ rest).takeWhile Char.isDigit = Decimal.digits n := by
  rw [List.takeWhile_append_of_pos fun c => Decimal.isDigit_of_mem_digits]
  cases rest with
  | nil => simp
  | cons c rest => simp [ends c rfl]

theorem digits_inj {n n' : Nat} {rest rest' : List Char} (ends : EndsNumber rest)
    (ends' : EndsNumber rest')
    (same : Decimal.digits n ++ rest = Decimal.digits n' ++ rest') : n = n' ∧ rest = rest' := by
  have written := congrArg (List.takeWhile Char.isDigit) same
  rw [takeWhile_digits ends, takeWhile_digits ends'] at written
  rw [written] at same
  exact ⟨Decimal.digits_injective written, List.append_cancel_left same⟩

theorem EndsNumber.nil : EndsNumber [] := by
  intro c first
  cases first

theorem EndsNumber.of_cons {c : Char} (other : c.isDigit = false) (rest : List Char) :
    EndsNumber (c :: rest) := by
  intro d first
  rw [← Option.some.inj first]
  exact other

/-! ## Elements between brackets -/

section

variable {α : Type} {write : α → List Char}

/-- What is written for an element tells it from all others and tells where it ends. -/
def Determined (write : α → List Char) (element : α) : Prop :=
  ∀ (other : α) (rest rest' : List Char), EndsNumber rest → EndsNumber rest' →
    write element ++ rest = write other ++ rest' → element = other ∧ rest = rest'

/-- The elements after the first one, each after a comma. -/
def separated (write : α → List Char) (elements : List α) : List Char :=
  elements.flatMap (',' :: write ·)

/-- Elements between brackets; the closing one is on a line of its own unless there are none. -/
def bracketed (opening closing : Char) (level : Nat) (write : α → List Char) :
    List α → List Char
  | [] => [opening, closing]
  | first :: elements =>
    opening :: (write first ++ (separated write elements ++ ((newline level).toList ++ [closing])))

theorem separated_cons (element : α) (elements : List α) :
    separated write (element :: elements) = ',' :: (write element ++ separated write elements) :=
  rfl

/-- What follows an element is a comma or a line break. -/
theorem endsNumber_separated (elements : List α) (rest : List Char) :
    EndsNumber (separated write elements ++ '\n' :: rest) := by
  cases elements with
  | nil => exact .of_cons rfl rest
  | cons element elements => exact .of_cons rfl _

theorem separated_append_inj {elements elements' : List α}
    (known : ∀ element ∈ elements, Determined write element) {rest rest' : List Char}
    (same : separated write elements ++ '\n' :: rest =
      separated write elements' ++ '\n' :: rest') : elements = elements' ∧ rest = rest' := by
  induction elements generalizing elements' with
  | nil =>
    cases elements' with
    | nil => exact ⟨rfl, (List.cons.inj same).2⟩
    | cons element' elements' => simp [separated] at same
  | cons element elements ih =>
    cases elements' with
    | nil => simp [separated] at same
    | cons element' elements' =>
      obtain ⟨first, known⟩ := List.forall_mem_cons.mp known
      simp only [separated_cons, List.cons_append, List.append_assoc, List.cons.injEq,
        true_and] at same
      obtain ⟨rfl, later⟩ :=
        first element' _ _ (endsNumber_separated _ _) (endsNumber_separated _ _) same
      obtain ⟨rfl, tails⟩ := ih known later
      exact ⟨rfl, tails⟩

theorem toList_newline (level : Nat) :
    (newline level).toList = '\n' :: List.replicate (2 * level) ' ' := by
  rw [newline, String.toList_ofList]

/-- Elements that begin with a line break are determined together if each of them is. -/
theorem determined_bracketed {opening closing : Char} {level : Nat} {elements : List α}
    (breaks : ∀ element, (write element).head? = some '\n') (solid : closing ≠ '\n')
    (known : ∀ element ∈ elements, Determined write element) :
    Determined (bracketed opening closing level write) elements := by
  intro elements' rest rest' _ _ same
  cases elements with
  | nil =>
    cases elements' with
    | nil => exact ⟨rfl, List.append_cancel_left same⟩
    | cons first' elements' =>
      obtain ⟨text, written⟩ := List.head?_eq_some_iff.mp (breaks first')
      simp [bracketed, written, solid] at same
  | cons first elements =>
    cases elements' with
    | nil =>
      obtain ⟨text, written⟩ := List.head?_eq_some_iff.mp (breaks first)
      simp [bracketed, written, solid.symm] at same
    | cons first' elements' =>
      -- With a comma before the first element, these are the elements of a longer list.
      have whole : separated write (first :: elements) ++
            '\n' :: (List.replicate (2 * level) ' ' ++ closing :: rest) =
          separated write (first' :: elements') ++
            '\n' :: (List.replicate (2 * level) ' ' ++ closing :: rest') := by
        simpa [bracketed, separated_cons, toList_newline] using same
      obtain ⟨all, tails⟩ := separated_append_inj known whole
      exact ⟨all, (List.cons.inj (List.append_cancel_left tails)).2⟩

end

/-! ## Characters of a value -/

/-- The characters of a value at a nesting level. -/
def chars (level : Nat) (value : Json) : List Char := (value.pretty level).toList

/-- An item on a line of its own. -/
def itemLine (level : Nat) (item : Json) : List Char := (newline level).toList ++ item.chars level

/-- A member on a line of its own. -/
def memberLine (level : Nat) (member : String × Json) : List Char :=
  (newline level).toList ++ '"' :: (member.1.toList.flatMap escapeChar ++
    '"' :: ':' :: ' ' :: member.2.chars level)

theorem toList_quote (content : String) :
    (quote content).toList = '"' :: (content.toList.flatMap escapeChar ++ ['"']) := by
  rw [quote, String.toList_ofList]

section

variable (level : Nat)

theorem chars_null : null.chars level = ['n', 'u', 'l', 'l'] := by
  simp [chars, pretty]

theorem chars_number (n : Nat) : (number n).chars level = Decimal.digits n := by
  rw [chars, pretty, Decimal.text, String.toList_ofList]

theorem chars_text (content : String) :
    (text content).chars level = '"' :: (content.toList.flatMap escapeChar ++ ['"']) := by
  rw [chars, pretty, toList_quote]

theorem toList_items (items : List Json) :
    (prettyItems level items).toList = separated (itemLine level) items := by
  induction items with
  | nil => simp [prettyItems, separated]
  | cons item items ih => simp [prettyItems, separated_cons, itemLine, chars, ih]

theorem toList_members (members : List (String × Json)) :
    (prettyMembers level members).toList = separated (memberLine level) members := by
  induction members with
  | nil => simp [prettyMembers, separated]
  | cons member members ih =>
    obtain ⟨key, value⟩ := member
    simp [prettyMembers, separated_cons, memberLine, chars, toList_quote, ih]

theorem chars_list (items : List Json) :
    (list items).chars level = bracketed '[' ']' level (itemLine (level + 1)) items := by
  cases items with
  | nil => simp [chars, pretty, bracketed]
  | cons item items => simp [chars, pretty, bracketed, itemLine, toList_items]

theorem chars_record (members : List (String × Json)) :
    (record members).chars level =
      bracketed '\x7b' '\x7d' level (memberLine (level + 1)) members := by
  cases members with
  | nil => simp [chars, pretty, bracketed]
  | cons member members =>
    obtain ⟨key, value⟩ := member
    simp [chars, pretty, bracketed, memberLine, toList_quote, toList_members]

end

/-! ## Forms -/

/-- What a value is, apart from its parts. -/
inductive Form where
  | null
  | number
  | text
  | list
  | record
deriving DecidableEq

/-- The form of a value. -/
def form : Json → Form
  | null => .null
  | number _ => .number
  | text _ => .text
  | list _ => .list
  | record _ => .record

/-- The form of the value that a character begins. -/
def Form.ofLead : Char → Form
  | 'n' => .null
  | '"' => .text
  | '[' => .list
  | '\x7b' => .record
  | _ => .number

theorem Form.ofLead_of_isDigit {c : Char} (digit : c.isDigit) : ofLead c = .number := by
  rw [ofLead.eq_def]
  split <;> first | rfl | contradiction

theorem head?_bracketed {α : Type} (opening closing : Char) (level : Nat)
    (write : α → List Char) (elements : List α) :
    (bracketed opening closing level write elements).head? = some opening := by
  cases elements <;> rfl

/-- The first character of a text tells the form of the value. -/
theorem exists_lead (level : Nat) (value : Json) :
    ∃ c, (value.chars level).head? = some c ∧ Form.ofLead c = value.form := by
  cases value with
  | null => exact ⟨'n', by rw [chars_null]; rfl, rfl⟩
  | number n =>
    obtain ⟨c, rest, written, digit⟩ := Decimal.exists_digits_cons n
    exact ⟨c, by rw [chars_number, written]; rfl, Form.ofLead_of_isDigit digit⟩
  | text content => exact ⟨'"', by rw [chars_text]; rfl, rfl⟩
  | list items => exact ⟨'[', by rw [chars_list, head?_bracketed], rfl⟩
  | record members => exact ⟨'\x7b', by rw [chars_record, head?_bracketed], rfl⟩

theorem form_eq_of_chars {level : Nat} {value value' : Json} {rest rest' : List Char}
    (same : value.chars level ++ rest = value'.chars level ++ rest') :
    value.form = value'.form := by
  obtain ⟨c, first, lead⟩ := exists_lead level value
  obtain ⟨c', first', lead'⟩ := exists_lead level value'
  have heads := congrArg List.head? same
  rw [List.head?_append, List.head?_append, first, first'] at heads
  rw [← lead, ← lead', Option.some.inj heads]

/-! ## Values -/

section

variable {level : Nat}

theorem determined_null : Determined (chars level) null := by
  intro value' rest rest' _ _ same
  have forms := form_eq_of_chars same
  cases value' with
  | null => exact ⟨rfl, List.append_cancel_left same⟩
  | _ => cases forms

theorem determined_number (n : Nat) : Determined (chars level) (number n) := by
  intro value' rest rest' ends ends' same
  have forms := form_eq_of_chars same
  cases value' with
  | number n' =>
    rw [chars_number, chars_number] at same
    obtain ⟨rfl, tails⟩ := digits_inj ends ends' same
    exact ⟨rfl, tails⟩
  | _ => cases forms

theorem determined_text (content : String) : Determined (chars level) (text content) := by
  intro value' rest rest' _ _ same
  have forms := form_eq_of_chars same
  cases value' with
  | text content' =>
    simp only [chars_text, List.cons_append, List.append_assoc, List.nil_append,
      List.cons.injEq, true_and] at same
    obtain ⟨contents, tails⟩ := quoted_inj same
    rw [String.toList_inj.mp contents]
    exact ⟨rfl, tails⟩
  | _ => cases forms

theorem head?_itemLine (item : Json) : (itemLine level item).head? = some '\n' := by
  rw [itemLine, toList_newline]
  rfl

theorem head?_memberLine (member : String × Json) :
    (memberLine level member).head? = some '\n' := by
  rw [memberLine, toList_newline]
  rfl

theorem determined_itemLine {item : Json} (known : Determined (chars level) item) :
    Determined (itemLine level) item := by
  intro item' rest rest' ends ends' same
  rw [itemLine, itemLine, List.append_assoc, List.append_assoc] at same
  exact known item' rest rest' ends ends' (List.append_cancel_left same)

theorem determined_memberLine {member : String × Json}
    (known : Determined (chars level) member.2) : Determined (memberLine level) member := by
  intro member' rest rest' ends ends' same
  simp only [memberLine, List.append_assoc, List.cons_append, List.append_cancel_left_eq,
    List.cons.injEq, true_and] at same
  obtain ⟨keys, after⟩ := quoted_inj same
  simp only [List.cons.injEq, true_and] at after
  obtain ⟨values, tails⟩ := known member'.2 rest rest' ends ends' after
  exact ⟨Prod.ext (String.toList_inj.mp keys) values, tails⟩

theorem determined_list {items : List Json}
    (known : ∀ item ∈ items, Determined (chars (level + 1)) item) :
    Determined (chars level) (list items) := by
  intro value' rest rest' ends ends' same
  have forms := form_eq_of_chars same
  cases value' with
  | list items' =>
    rw [chars_list, chars_list] at same
    have together : Determined (bracketed '[' ']' level (itemLine (level + 1))) items :=
      determined_bracketed head?_itemLine (by decide) fun item inside =>
        determined_itemLine (known item inside)
    obtain ⟨rfl, tails⟩ := together items' rest rest' ends ends' same
    exact ⟨rfl, tails⟩
  | _ => cases forms

theorem determined_record {members : List (String × Json)}
    (known : ∀ member ∈ members, Determined (chars (level + 1)) member.2) :
    Determined (chars level) (record members) := by
  intro value' rest rest' ends ends' same
  have forms := form_eq_of_chars same
  cases value' with
  | record members' =>
    rw [chars_record, chars_record] at same
    have together :
        Determined (bracketed '\x7b' '\x7d' level (memberLine (level + 1))) members :=
      determined_bracketed head?_memberLine (by decide) fun member inside =>
        determined_memberLine (known member inside)
    obtain ⟨rfl, tails⟩ := together members' rest rest' ends ends' same
    exact ⟨rfl, tails⟩
  | _ => cases forms

end

/-- Every value is determined by its text. -/
theorem determined (level : Nat) : (value : Json) → Determined (chars level) value
  | null => determined_null
  | number n => determined_number n
  | text content => determined_text content
  | list items => determined_list fun item _ => determined (level + 1) item
  | record members => determined_record fun member _ => determined (level + 1) member.2
termination_by value => sizeOf value
decreasing_by
  · have smaller := List.sizeOf_lt_of_mem ‹item ∈ items›
    simp only [list.sizeOf_spec]
    omega
  · have smaller := List.sizeOf_lt_of_mem ‹member ∈ members›
    have part : sizeOf member = 1 + sizeOf member.1 + sizeOf member.2 := rfl
    simp only [record.sizeOf_spec]
    omega

theorem pretty_injective (level : Nat) : Function.Injective (pretty level) := by
  intro value value' same
  exact (determined level value value' [] [] .nil .nil (by rw [chars, chars, same])).1

end Arithmetization.Json
