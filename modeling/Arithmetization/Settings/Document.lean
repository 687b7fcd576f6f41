import Arithmetization.Settings
import Arithmetization.Text.Hexadecimal

/-! # Settings documents

A settings document is a TOML document with the optional keys `prime_capacity` and `strict` at its
top level. Since no other key, table or type of value is allowed, every line of a document is
blank, or assigns a natural number or a truth value to one of the two keys; comments may follow.
-/

namespace Arithmetization.Settings

/-- White space within a line. -/
def isSpace (c : Char) : Bool := c = ' ' || c = '\t'

/-- A text without the white space before it. -/
def skipSpaces (text : List Char) : List Char := text.dropWhile isSpace

/-- The characters that comments and quoted keys may hold. -/
def isPrintable (c : Char) : Bool := c = '\t' || (0x20 ≤ c.toNat && c.toNat ≠ 0x7f)

/-- The lines of a document; a line ends with a line feed, before which a carriage return may be. -/
def splitLines : List Char → List (List Char)
  | [] => [[]]
  | '\n' :: rest => [] :: splitLines rest
  | '\r' :: '\n' :: rest => [] :: splitLines rest
  | c :: rest =>
    match splitLines rest with
    | line :: lines => (c :: line) :: lines
    | [] => [[c]]

/-- Whether nothing but white space and a comment is left of a line. -/
def isLineEnd (text : List Char) : Bool :=
  match skipSpaces text with
  | [] => true
  | '#' :: comment => comment.all isPrintable
  | _ => false

/-- The characters of a key without quotes. -/
def isBareKeyChar (c : Char) : Bool := c.isAlphanum || c = '_' || c = '-'

/-- The character that a backslash and one letter stand for in a quoted key. -/
def escaped? : Char → Option Char
  | 'b' => some '\x08'
  | 'e' => some '\x1b'
  | 't' => some '\t'
  | 'n' => some '\n'
  | 'f' => some '\x0c'
  | 'r' => some '\r'
  | '"' => some '"'
  | '\\' => some '\\'
  | _ => none

/-- Puts a character before the key that the rest of a text begins with. -/
def prepend (c : Option Char) (rest : Option (List Char × List Char)) :
    Option (List Char × List Char) :=
  c.bind fun c => rest.map fun (key, after) => (c :: key, after)

/-- A key up to its closing double quote, with the text after it. -/
def doubleQuotedKey? : List Char → Option (List Char × List Char)
  | [] => none
  | '"' :: rest => some ([], rest)
  | '\\' :: 'x' :: a :: b :: rest =>
    prepend (Text.hexChar? [a, b]) (doubleQuotedKey? rest)
  | '\\' :: 'u' :: a :: b :: c :: d :: rest =>
    prepend (Text.hexChar? [a, b, c, d]) (doubleQuotedKey? rest)
  | '\\' :: 'U' :: a :: b :: c :: d :: e :: f :: g :: h :: rest =>
    prepend (Text.hexChar? [a, b, c, d, e, f, g, h]) (doubleQuotedKey? rest)
  | '\\' :: c :: rest => prepend (escaped? c) (doubleQuotedKey? rest)
  | c :: rest => prepend (if isPrintable c then some c else none) (doubleQuotedKey? rest)

/-- A key up to its closing single quote, with the text after it. -/
def singleQuotedKey? : List Char → Option (List Char × List Char)
  | [] => none
  | '\'' :: rest => some ([], rest)
  | c :: rest => prepend (if isPrintable c then some c else none) (singleQuotedKey? rest)

/-- The key at the beginning of a text, with the text after it. -/
def key? : List Char → Option (List Char × List Char)
  | '"' :: rest => doubleQuotedKey? rest
  | '\'' :: rest => singleQuotedKey? rest
  | text =>
    match text.takeWhile isBareKeyChar with
    | [] => none
    | key => some (key, text.dropWhile isBareKeyChar)

/-- Digits without the underscores between them; each underscore stands between two digits. -/
def separatedDigits? (isDigit : Char → Bool) : List Char → Option (List Char)
  | [] => none
  | [c] => if isDigit c then some [c] else none
  | c :: '_' :: rest =>
    if isDigit c then (separatedDigits? isDigit rest).map (c :: ·) else none
  | c :: rest => if isDigit c then (separatedDigits? isDigit rest).map (c :: ·) else none

/-- The decimal number without sign that a text writes; it has no leading zero. -/
def decimal? (text : List Char) : Option Nat :=
  (separatedDigits? Char.isDigit text).bind fun digits =>
    match digits with
    | '0' :: _ :: _ => none
    | _ => some (Decimal.value digits)

/-- The number in a base up to sixteen that a text writes. -/
def inBase? (base : Nat) (text : List Char) : Option Nat :=
  let isDigit (c : Char) : Bool := (Text.hexDigit? c).any (· < base)
  (separatedDigits? isDigit text).map fun digits =>
    digits.foldl (fun n c => base * n + (Text.hexDigit? c).getD 0) 0

/-- The integer that a text writes, if it is not negative. -/
def natural? : List Char → Option Nat
  | '0' :: 'x' :: digits => inBase? 16 digits
  | '0' :: 'o' :: digits => inBase? 8 digits
  | '0' :: 'b' :: digits => inBase? 2 digits
  | '+' :: digits => decimal? digits
  | '-' :: digits => (decimal? digits).filter (· = 0)
  | digits => decimal? digits

/-- The truth value that a text writes. -/
def truth? (text : List Char) : Option Bool :=
  if text = "true".toList then some true
  else if text = "false".toList then some false
  else none

/-- The values that a document has assigned so far. -/
structure Draft where
  primeCapacity : Option Nat := none
  strict : Option Bool := none

namespace Draft

/-- Assigns the value that a text writes to a key, unless the key has a value already. -/
def assign? (draft : Draft) (key value : List Char) : Option Draft :=
  if key = "prime_capacity".toList then
    match draft.primeCapacity, natural? value with
    | none, some n =>
      if n ≤ Decimal.maxWord then some { draft with primeCapacity := some n } else none
    | _, _ => none
  else if key = "strict".toList then
    match draft.strict, truth? value with
    | none, some b => some { draft with strict := some b }
    | _, _ => none
  else none

/-- Takes one line of a document. -/
def readLine? (draft : Draft) (line : List Char) : Option Draft :=
  if isLineEnd line then some draft
  else
    match key? (skipSpaces line) with
    | none => none
    | some (key, rest) =>
      match skipSpaces rest with
      | '=' :: rest =>
        let text := skipSpaces rest
        let isValueChar (c : Char) : Bool := !isSpace c && c ≠ '#'
        if isLineEnd (text.dropWhile isValueChar) then
          draft.assign? key (text.takeWhile isValueChar)
        else none
      | _ => none

/-- The settings of a draft, with the defaults for what was not assigned. -/
def settings (draft : Draft) : Settings :=
  { primeCapacity := draft.primeCapacity.getD Encoder.defaultCapacity
    strict := draft.strict.getD false }

end Draft

/-- A document without the byte order mark that it may begin with. -/
def withoutMark : List Char → List Char
  | '\ufeff' :: rest => rest
  | text => text

/-- The settings that a document writes. -/
def ofDocument? (document : String) : Option Settings :=
  ((splitLines (withoutMark document.toList)).foldlM Draft.readLine? {}).map Draft.settings

end Arithmetization.Settings
