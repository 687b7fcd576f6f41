import Arithmetization.Command.Arguments
import Arithmetization.Event
import Arithmetization.Report.Diagnostic
import Arithmetization.Report.Structured
import Arithmetization.Report.Text
import Arithmetization.Settings.Document

/-! # Running a command line

A run takes the command line and what it can see of the system, and gives an exit status with what
is written to the two output streams. It reads the settings first, then the number to decode or the
formula to analyze, and stops at the first failure; a failed run writes nothing to the standard
output. Texts that other programs word come from outside: the messages of the system, what is said
of a document that holds no settings, the usage and the help. The error stream has no colors here.
-/

namespace Arithmetization.Command

/-- The texts that a run shows without wording them itself. -/
structure Wording where
  /-- What is said of a command line that is not accepted. -/
  usage : List String → String
  help : String
  /-- What is said of a document that holds no settings. -/
  settingsFault : String → String

/-- What a run can see of the system. -/
structure Surroundings where
  /-- The standard input, or the message of the system if it cannot be read. -/
  stdin : Except String ByteArray
  /-- The content of a file, or the message of the system if it cannot be read. -/
  file : String → Except String ByteArray
  /-- Whether the standard output shows colors. -/
  color : Bool
  /-- The number of columns of the terminal, if one is found. -/
  columns : Option Nat
  wording : Wording

/-- Why a text cannot be read. -/
inductive ReadFault where
  /-- The system does not give the content and says why. -/
  | system (message : String)
  | invalidEncoding
deriving DecidableEq, Repr

/-- The wording of a fault in reading. -/
def ReadFault.message : ReadFault → String
  | system message => message
  | invalidEncoding => "stream did not contain valid UTF-8"

/-- Why a run fails. -/
inductive Failure where
  | unreadable (fault : ReadFault)
  /-- The document of the given name holds no settings, for the reason that the message gives. -/
  | invalidSettings (name message : String)
  | noInput
  | invalidNumber (text : String)
  | refused (error : Error)
  /-- The formula of the given name does not follow the grammar. -/
  | malformed (name formula : String) (error : GrammarError)
deriving DecidableEq, Repr

/-- What a failed run writes to the error stream. -/
def Failure.report : Failure → String
  | unreadable fault => "Error: I/O error: " ++ fault.message ++ "\n"
  | invalidSettings name message =>
    "Error: invalid configuration file `" ++ name ++ "`: " ++ message ++ "\n"
  | noInput => "Error: no input provided, use --code <FORMULA>, --stdin or --file <FILE>\n"
  | invalidNumber text => "Error: `" ++ text ++ "` is not a decimal natural number\n"
  | refused error => "Error: " ++ error.message ++ "\n"
  | malformed name formula error => Report.diagnostic name formula error

/-- The text of a content in UTF-8. -/
def decodeText : Except String ByteArray → Except Failure String
  | .error message => .error (.unreadable (.system message))
  | .ok bytes =>
    match String.fromUTF8? bytes with
    | some text => .ok text
    | none => .error (.unreadable .invalidEncoding)

/-- A text without the line break at its end: a line feed, perhaps after a carriage return. -/
def withoutLineBreak (text : List Char) : List Char :=
  match text.reverse with
  | '\n' :: '\r' :: rest => rest.reverse
  | '\n' :: rest => rest.reverse
  | _ => text

/-- The name of a formula in reports together with the formula. -/
structure Input where
  name : String
  formula : String
deriving DecidableEq, Repr

namespace Surroundings

/-- The text of a file. -/
def fileText (surroundings : Surroundings) (name : String) : Except Failure String :=
  decodeText (surroundings.file name)

/-- The width of a text report: that of the terminal, if one is found. -/
def width (surroundings : Surroundings) : Nat := surroundings.columns.getD Report.fallbackWidth

/-- The settings of a run: those of the settings document, overridden by the options. -/
def settings (surroundings : Surroundings) (request : Request) : Except Failure Settings := do
  let base ← match request.config with
    | none => pure {}
    | some name =>
      let text ← surroundings.fileText name
      match Settings.ofDocument? text with
      | some settings => pure settings
      | none => .error (.invalidSettings name (surroundings.wording.settingsFault text))
  let merged : Settings :=
    { primeCapacity := request.primes.getD base.primeCapacity
      strict := base.strict || request.strict }
  merged.validate.mapError .refused
  return merged

/-- The formula of a run: the option comes first, then the standard input, then the file. -/
def input (surroundings : Surroundings) (request : Request) : Except Failure Input :=
  match request.code with
  | some formula => .ok ⟨"<code>", formula⟩
  | none =>
    if request.stdin then
      (decodeText surroundings.stdin).map fun text =>
        ⟨"<stdin>", String.ofList (withoutLineBreak text.toList)⟩
    else
      match request.file with
      | some name =>
        (surroundings.fileText name).map fun text =>
          ⟨name, String.ofList (withoutLineBreak text.toList)⟩
      | none => .error .noInput

end Surroundings

/-- A text in the format of a request: the JSON form ends with a line break of its own. -/
def formatted (request : Request) (text json : Unit → String) : String :=
  match request.format.getD .text with
  | .text => text ()
  | .json => json () ++ "\n"

/-- The failure of a refused formula; a malformed one is shown with its name. -/
def refusal (input : Input) : Error → Failure
  | .malformedGrammar error => .malformed input.name input.formula error
  | error => .refused error

/-- Decodes a number. -/
def decode (surroundings : Surroundings) (request : Request) (settings : Settings)
    (text : String) : List Event × Except Failure String :=
  match Decimal.ofText? text with
  | none => ([], .error (.invalidNumber text))
  | some number =>
    match settings.encoder with
    | .error error => ([], .error (.refused error))
    | .ok encoder =>
      (.tableBuilt encoder.capacity :: encoder.events number,
        match encoder.decodeFormula number with
        | .error error => .error (.refused error)
        | .ok formula =>
          let digits := Decimal.text number
          .ok (formatted request
            (fun _ => Report.decodedText surroundings.width surroundings.color digits formula)
            (fun _ => Report.decodedJson digits formula)))

/-- Analyzes a formula. -/
def analyze (surroundings : Surroundings) (request : Request) (settings : Settings)
    (input : Input) : List Event × Except Failure String :=
  match Analyzer.ofSettings settings with
  | .error error => ([], .error (.refused error))
  | .ok analyzer =>
    (.tableBuilt analyzer.encoder.capacity :: analyzer.events input.formula,
      match analyzer.run input.formula with
      | .error error => .error (refusal input error)
      | .ok analysis =>
        .ok (formatted request
          (fun _ => Report.analysisText surroundings.width surroundings.color analysis)
          (fun _ => Report.analysisJson analysis)))

/-- What happens when a request is carried out, and the output or the first failure. -/
def execute (surroundings : Surroundings) (request : Request) :
    List Event × Except Failure String :=
  match surroundings.settings request with
  | .error failure => ([], .error failure)
  | .ok settings =>
    let (events, result) :=
      match request.decode with
      | some text => decode surroundings request settings text
      | none =>
        match surroundings.input request with
        | .error failure => ([], .error failure)
        | .ok input => analyze surroundings request settings input
    (.configured settings :: events, result)

/-- The result of a run. -/
structure Outcome where
  status : Nat
  stdout : String
  stderr : String
deriving DecidableEq, Repr

/-- The events that the verbosity of a request shows. -/
def shownEvents (request : Request) (events : List Event) : String :=
  (events.filter (·.isShown (.ofVerbosity request.verbosity))).foldl (fun s e => s ++ e.line) ""

/-- The name and version of the program. -/
def versionLine : String := "hygodel-cli 0.1.0\n"

/-- Carries out a command line. -/
def run (surroundings : Surroundings) (arguments : List String) : Outcome :=
  match Action.ofArguments? arguments with
  | none => ⟨2, "", surroundings.wording.usage arguments⟩
  | some .showHelp => ⟨0, surroundings.wording.help, ""⟩
  | some .showVersion => ⟨0, versionLine, ""⟩
  | some (.run request) =>
    let (events, result) := execute surroundings request
    let shown := shownEvents request events
    match result with
    | .ok output => ⟨0, output, shown⟩
    | .error failure => ⟨1, "", shown ++ failure.report⟩

/-- The files that a command line may read. -/
def filesRead (arguments : List String) : List String :=
  match Action.ofArguments? arguments with
  | some (.run request) => request.config.toList ++ request.file.toList
  | _ => []

/-- Whether a command line may read the standard input. -/
def readsStdin (arguments : List String) : Bool :=
  match Action.ofArguments? arguments with
  | some (.run request) => request.stdin && request.code.isNone && request.decode.isNone
  | _ => false

end Arithmetization.Command
