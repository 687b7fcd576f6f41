import Arithmetization.Command.Run

/-! # Where a run takes its texts from

Files and the standard input hold bytes; they are readable if the bytes are some text in UTF-8. The
formula of a request comes from the option, from the standard input or from a file, in this order,
and the sources after the first one are not looked at. A source other than the option may end with a
line break that does not belong to the formula.
-/

namespace Arithmetization.Command

/-- Why a content is not a text: the system does not give it, or it has another encoding. -/
inductive Unreadable : Except String ByteArray → ReadFault → Prop where
  | system {message : String} : Unreadable (.error message) (.system message)
  | invalidEncoding {bytes : ByteArray} (foreign : ∀ text : String, text.toUTF8 ≠ bytes) :
    Unreadable (.ok bytes) .invalidEncoding

theorem decodeText_toUTF8 (text : String) : decodeText (.ok text.toUTF8) = .ok text := by
  have decoded : String.fromUTF8? text.toUTF8 = some text := dif_pos text.isValidUTF8
  simp only [decodeText, decoded]

theorem decodeText_of_unreadable {content : Except String ByteArray} {fault : ReadFault}
    (unreadable : Unreadable content fault) : decodeText content = .error (.unreadable fault) := by
  cases unreadable with
  | system => rfl
  | @invalidEncoding bytes foreign =>
    have refused : String.fromUTF8? bytes = none := by
      refine dif_neg fun valid => ?_
      exact foreign (String.ofByteArray bytes valid) rfl
    simp only [decodeText, refused]

/-- A content is a text in UTF-8 or unreadable. -/
theorem text_or_unreadable (content : Except String ByteArray) :
    (∃ text : String, content = .ok text.toUTF8) ∨ ∃ fault, Unreadable content fault := by
  cases content with
  | error message => exact .inr ⟨_, .system⟩
  | ok bytes =>
    by_cases text : ∃ text : String, text.toUTF8 = bytes
    · obtain ⟨text, rfl⟩ := text
      exact .inl ⟨text, rfl⟩
    · exact .inr ⟨_, .invalidEncoding (not_exists.mp text)⟩

/-! ## Line breaks -/

/-- What is left of a text without the line break at its end. -/
inductive Stripped : List Char → List Char → Prop where
  | unbroken {text : List Char} (other : text.getLast? ≠ some '\n') : Stripped text text
  | lineFeed {text : List Char} (other : text.getLast? ≠ some '\r') :
    Stripped (text ++ ['\n']) text
  | returnAndFeed {text : List Char} : Stripped (text ++ ['\r', '\n']) text

theorem withoutLineBreak_of_stripped {text rest : List Char} (stripped : Stripped text rest) :
    withoutLineBreak text = rest := by
  cases stripped with
  | unbroken other =>
    rw [List.getLast?_eq_head?_reverse] at other
    rw [withoutLineBreak]
    split
    · next same => exact (other (congrArg List.head? same)).elim
    · next same => exact (other (congrArg List.head? same)).elim
    · rfl
  | lineFeed other =>
    rw [List.getLast?_eq_head?_reverse] at other
    rw [withoutLineBreak, List.reverse_append]
    split
    · next same => exact (other (congrArg List.head? (List.cons.inj same).2)).elim
    · next same =>
      exact (congrArg List.reverse (List.cons.inj same).2).symm.trans rest.reverse_reverse
    · next unbroken => exact (unbroken _ rfl).elim
  | returnAndFeed =>
    rw [withoutLineBreak, List.reverse_append]
    exact List.reverse_reverse rest

theorem exists_stripped (text : List Char) : ∃ rest, Stripped text rest := by
  by_cases feed : text.getLast? = some '\n'
  · obtain ⟨before, rfl⟩ := List.getLast?_eq_some_iff.mp feed
    by_cases back : before.getLast? = some '\r'
    · obtain ⟨rest, rfl⟩ := List.getLast?_eq_some_iff.mp back
      rw [List.append_assoc]
      exact ⟨rest, .returnAndFeed⟩
    · exact ⟨before, .lineFeed back⟩
  · exact ⟨text, .unbroken feed⟩

namespace Surroundings

variable {surroundings : Surroundings} {request : Request} {name : String}

theorem fileText_of_text {text : String} (found : surroundings.file name = .ok text.toUTF8) :
    surroundings.fileText name = .ok text := by
  rw [fileText, found, decodeText_toUTF8]

theorem fileText_of_unreadable {fault : ReadFault}
    (unreadable : Unreadable (surroundings.file name) fault) :
    surroundings.fileText name = .error (.unreadable fault) := decodeText_of_unreadable unreadable

/-! ## The selected formula -/

/-- The formula that a request selects, with its name in reports. -/
inductive Selects (surroundings : Surroundings) (request : Request) : Input → Prop where
  | code {formula : String} (given : request.code = some formula) :
    Selects surroundings request ⟨"<code>", formula⟩
  | stdin {text : String} {rest : List Char} (noCode : request.code = none)
    (asked : request.stdin = true) (held : surroundings.stdin = .ok text.toUTF8)
    (stripped : Stripped text.toList rest) :
    Selects surroundings request ⟨"<stdin>", String.ofList rest⟩
  | file {name text : String} {rest : List Char} (noCode : request.code = none)
    (notAsked : request.stdin = false) (given : request.file = some name)
    (found : surroundings.file name = .ok text.toUTF8) (stripped : Stripped text.toList rest) :
    Selects surroundings request ⟨name, String.ofList rest⟩

/-- Why a request selects no formula: nothing is selected, or what is selected is unreadable. -/
inductive SelectsNone (surroundings : Surroundings) (request : Request) : Failure → Prop where
  | stdin {fault : ReadFault} (noCode : request.code = none) (asked : request.stdin = true)
    (unreadable : Unreadable surroundings.stdin fault) :
    SelectsNone surroundings request (.unreadable fault)
  | file {name : String} {fault : ReadFault} (noCode : request.code = none)
    (notAsked : request.stdin = false) (given : request.file = some name)
    (unreadable : Unreadable (surroundings.file name) fault) :
    SelectsNone surroundings request (.unreadable fault)
  | missing (noCode : request.code = none) (notAsked : request.stdin = false)
    (noFile : request.file = none) : SelectsNone surroundings request .noInput

theorem input_of_selects {input : Input} (selects : Selects surroundings request input) :
    surroundings.input request = .ok input := by
  cases selects with
  | code given => rw [Surroundings.input, given]
  | stdin noCode asked held stripped =>
    rw [Surroundings.input, noCode, held, decodeText_toUTF8, if_pos asked]
    simp only [Except.map, withoutLineBreak_of_stripped stripped]
  | file noCode notAsked given found stripped =>
    simp only [Surroundings.input, noCode, notAsked, given, fileText_of_text found, Except.map,
      withoutLineBreak_of_stripped stripped]
    rfl

theorem input_of_selectsNone {failure : Failure}
    (selects : SelectsNone surroundings request failure) :
    surroundings.input request = .error failure := by
  cases selects with
  | stdin noCode asked unreadable =>
    rw [Surroundings.input, noCode, if_pos asked, decodeText_of_unreadable unreadable]
    rfl
  | file noCode notAsked given unreadable =>
    simp only [Surroundings.input, noCode, notAsked, given, fileText_of_unreadable unreadable]
    rfl
  | missing noCode notAsked noFile =>
    simp only [Surroundings.input, noCode, notAsked, noFile]
    rfl

variable (surroundings request) in
theorem selects_or_selectsNone :
    (∃ input, Selects surroundings request input) ∨
      ∃ failure, SelectsNone surroundings request failure := by
  cases code : request.code with
  | some formula => exact .inl ⟨_, .code code⟩
  | none =>
    cases stdin : request.stdin with
    | true =>
      rcases text_or_unreadable surroundings.stdin with ⟨text, held⟩ | ⟨fault, unreadable⟩
      · obtain ⟨rest, stripped⟩ := exists_stripped text.toList
        exact .inl ⟨_, .stdin code stdin held stripped⟩
      · exact .inr ⟨_, .stdin code stdin unreadable⟩
    | false =>
      cases file : request.file with
      | none => exact .inr ⟨_, .missing code stdin file⟩
      | some name =>
        rcases text_or_unreadable (surroundings.file name) with ⟨text, found⟩ | ⟨fault, unreadable⟩
        · obtain ⟨rest, stripped⟩ := exists_stripped text.toList
          exact .inl ⟨_, .file code stdin file found stripped⟩
        · exact .inr ⟨_, .file code stdin file unreadable⟩

end Surroundings

end Arithmetization.Command
