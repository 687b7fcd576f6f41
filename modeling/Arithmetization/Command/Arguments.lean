import Arithmetization.Decimal

/-! # Command lines

Arguments are taken from left to right. A value option takes the text after `=`, the rest of a
bundle of short options, or the next argument, which may begin with a hyphen only if it is nothing
else. Every option but the verbosity may be given once; there are no positional arguments.
-/

namespace Arithmetization.Command

/-- The shape of the output. -/
inductive Format where
  | text
  | json
deriving DecidableEq, Repr

/-- The options that take a value. -/
inductive ValueOption where
  | code
  | file
  | primes
  | config
  | format
  | decode
deriving DecidableEq, Repr

/-- The options without a value. -/
inductive Flag where
  | stdin
  | strict
  | verbose
  | help
  | version
deriving DecidableEq, Repr

/-- What a command line asks for. -/
structure Request where
  code : Option String := none
  stdin : Bool := false
  file : Option String := none
  strict : Bool := false
  primes : Option Nat := none
  config : Option String := none
  format : Option Format := none
  decode : Option String := none
  verbosity : Nat := 0
deriving DecidableEq, Repr

/-- What is to be done with a command line. -/
inductive Action where
  | run (request : Request)
  | showHelp
  | showVersion
deriving DecidableEq, Repr

/-- The option that a name stands for. -/
inductive Name where
  | value (option : ValueOption)
  | flag (flag : Flag)
deriving DecidableEq, Repr

/-- The option of a long name. -/
def Name.ofLong? (name : String) : Option Name :=
  match name with
  | "code" => some (.value .code)
  | "file" => some (.value .file)
  | "primes" => some (.value .primes)
  | "config" => some (.value .config)
  | "format" => some (.value .format)
  | "decode" => some (.value .decode)
  | "stdin" => some (.flag .stdin)
  | "strict" => some (.flag .strict)
  | "verbose" => some (.flag .verbose)
  | "help" => some (.flag .help)
  | "version" => some (.flag .version)
  | _ => none

/-- The option of a short name. -/
def Name.ofShort? (name : Char) : Option Name :=
  match name with
  | 'c' => some (.value .code)
  | 'f' => some (.value .file)
  | 's' => some (.flag .stdin)
  | 'v' => some (.flag .verbose)
  | 'h' => some (.flag .help)
  | 'V' => some (.flag .version)
  | _ => none

/-- The number of one word that a value writes: digits after an optional plus sign. -/
def number? (text : String) : Option Nat :=
  let digits := match text.toList with
    | '+' :: rest => rest
    | all => all
  if digits ≠ [] && digits.all Char.isDigit && Decimal.value digits ≤ Decimal.maxWord then
    some (Decimal.value digits)
  else none

/-- The format of a name. -/
def Format.ofName? (name : String) : Option Format :=
  match name with
  | "text" => some .text
  | "json" => some .json
  | _ => none

/-- Fills a place that must still be empty. -/
def once? {Value : Type} (place : Option Value) (value : Option Value) : Option (Option Value) :=
  match place with
  | some _ => none
  | none => value.map some

namespace Request

/-- Gives an option its value, unless it has one or the value is malformed. -/
def assign? (request : Request) (option : ValueOption) (value : String) : Option Request :=
  match option with
  | .code => (once? request.code (some value)).map ({ request with code := · })
  | .file => (once? request.file (some value)).map ({ request with file := · })
  | .primes => (once? request.primes (number? value)).map ({ request with primes := · })
  | .config => (once? request.config (some value)).map ({ request with config := · })
  | .format => (once? request.format (Format.ofName? value)).map ({ request with format := · })
  | .decode => (once? request.decode (some value)).map ({ request with decode := · })

/-- Sets a flag: goes on with the request, ends with another action, or refuses a repetition. -/
def raise? (request : Request) (flag : Flag) : Option Action :=
  match flag with
  | .stdin => if request.stdin then none else some (.run { request with stdin := true })
  | .strict => if request.strict then none else some (.run { request with strict := true })
  | .verbose => some (.run { request with verbosity := request.verbosity + 1 })
  | .help => some .showHelp
  | .version => some .showVersion

end Request

/-- An argument by its shape. -/
inductive Argument where
  /-- A word that belongs to no option by itself. -/
  | word
  /-- A long option, perhaps with a value. -/
  | long (name : String) (value : Option String)
  /-- A bundle of short options. -/
  | short (names : List Char)
deriving DecidableEq, Repr

/-- The shape of an argument. -/
def Argument.ofString (argument : String) : Argument :=
  match argument.toList with
  | '-' :: '-' :: rest =>
    let name := String.ofList (rest.takeWhile (· ≠ '='))
    match rest.dropWhile (· ≠ '=') with
    | [] => .long name none
    | _ :: value => .long name (some (String.ofList value))
  | '-' :: name :: names => .short (name :: names)
  | _ => .word

/-- Whether an argument can be the value of the option before it. -/
def isValue (argument : String) : Bool := Argument.ofString argument = .word

/-- What an argument comes to. -/
inductive Progress where
  | done (action : Action)
  /-- The option takes the next argument as its value. -/
  | needsValue (request : Request) (option : ValueOption)
deriving DecidableEq, Repr

/-- Gives an option its value and goes on. -/
def Progress.assign? (request : Request) (option : ValueOption) (value : String) :
    Option Progress :=
  (request.assign? option value).map (.done ∘ .run)

/-- Takes a bundle of short options; an equals sign may stand before a value. -/
def readBundle? (request : Request) : List Char → Option Progress
  | [] => some (.done (.run request))
  | name :: rest =>
    match Name.ofShort? name, rest with
    | none, _ => none
    | some (.flag flag), rest =>
      match request.raise? flag with
      | some (.run request) => readBundle? request rest
      | other => other.map .done
    | some (.value option), [] => some (.needsValue request option)
    | some (.value option), '=' :: value => Progress.assign? request option (String.ofList value)
    | some (.value option), value => Progress.assign? request option (String.ofList value)

/-- Takes a long option; one without a value must not be given any. -/
def readLong? (request : Request) (name : String) (value : Option String) : Option Progress :=
  match Name.ofLong? name, value with
  | none, _ => none
  | some (.flag flag), none => (request.raise? flag).map .done
  | some (.flag _), some _ => none
  | some (.value option), none => some (.needsValue request option)
  | some (.value option), some value => Progress.assign? request option value

/-- Takes one argument that is not the value of another. -/
def readArgument? (request : Request) : Argument → Option Progress
  | .word => none
  | .long name value => readLong? request name value
  | .short names => readBundle? request names

/-- Takes the arguments that follow what has been asked for already. The mark before positional
arguments may only come last, since there are none. -/
def readArguments? (request : Request) : List String → Option Action
  | [] => some (.run request)
  | argument :: rest =>
    if argument = "--" then (if rest = [] then some (.run request) else none)
    else
      match readArgument? request (.ofString argument) with
      | none => none
      | some (.done (.run request)) => readArguments? request rest
      | some (.done action) => some action
      | some (.needsValue request option) =>
        match rest with
        | [] => none
        | value :: rest =>
          if isValue value then
            match request.assign? option value with
            | some request => readArguments? request rest
            | none => none
          else none

/-- The action of a command line, if it is well formed. -/
def Action.ofArguments? (arguments : List String) : Option Action := readArguments? {} arguments

end Arithmetization.Command
