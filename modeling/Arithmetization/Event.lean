import Arithmetization.Analysis

/-! # Events

What happens during an analysis or a decoding, in the order in which it happens. Each event has a
level, a part of the program that reports it and a wording. The events are a function of what was
asked for; nothing depends on them.
-/

namespace Arithmetization

/-- How much detail an event adds; a warning is the least. -/
inductive Level where
  | warn
  | info
  | debug
  | trace
deriving DecidableEq, Repr

namespace Level

/-- The name of a level. -/
def name : Level → String
  | warn => "WARN"
  | info => "INFO"
  | debug => "DEBUG"
  | trace => "TRACE"

/-- The amount of detail of a level. -/
def detail : Level → Nat
  | warn => 0
  | info => 1
  | debug => 2
  | trace => 3

/-- The most detailed level that is shown when it is asked for more detail that many times. -/
def ofVerbosity : Nat → Level
  | 0 => warn
  | 1 => info
  | 2 => debug
  | _ => trace

/-- The name of a level in a column of five characters. -/
def column (level : Level) : String := level.name.pushn ' ' (5 - level.name.length)

end Level

/-- Something that happened. -/
inductive Event where
  | configured (settings : Settings)
  | tableBuilt (count : Nat)
  | encoded (length number : Nat)
  | decoded (positions : Nat)
  | tokenized (length symbols : Nat)
  | parsed (consumed symbols nodes : Nat)
  | rejected
  | stepEmitted (step : Step)
  | constructed (steps : Nat)
  | analyzed (symbols steps number : Nat)
deriving DecidableEq, Repr

namespace Event

/-- The level of an event. -/
def level : Event → Level
  | configured _ => .debug
  | tableBuilt _ => .trace
  | encoded _ _ => .debug
  | decoded _ => .debug
  | tokenized _ _ => .trace
  | parsed _ _ _ => .debug
  | rejected => .debug
  | stepEmitted _ => .trace
  | constructed _ => .debug
  | analyzed _ _ _ => .info

/-- The part of the program that reports an event. -/
def source : Event → String
  | configured _ => "hygodel"
  | tableBuilt _ => "hygodel::encoding::primes"
  | encoded _ _ => "hygodel::encoding"
  | decoded _ => "hygodel::encoding"
  | tokenized _ _ => "hygodel::lexer"
  | parsed _ _ _ => "hygodel::parser"
  | rejected => "hygodel::parser"
  | stepEmitted _ => "hygodel::steps"
  | constructed _ => "hygodel::steps"
  | analyzed _ _ _ => "hygodel::pipeline"

/-- The wording of an event. -/
def message : Event → String
  | configured settings => "Using " ++ settings.line
  | tableBuilt count => "Built prime table of " ++ Decimal.text count ++ " entries"
  | encoded length number =>
    "Encoded " ++ Decimal.text length ++ " characters into a Gödel number of " ++
      Decimal.text (Encoding.bitCount number) ++ " bits"
  | decoded positions => "Decoded Gödel number into " ++ Decimal.text positions ++ " positions"
  | tokenized length symbols =>
    "Tokenized " ++ Decimal.text length ++ " characters into " ++ Decimal.text symbols ++ " symbols"
  | parsed consumed symbols nodes =>
    "Parsed " ++ Decimal.text consumed ++ " of " ++ Decimal.text symbols ++
      " tokens into a tree of " ++ Decimal.text nodes ++ " nodes"
  | rejected => "Strict parse rejected the formula with 1 errors"
  | stepEmitted step => "Emitted step " ++ step.line
  | constructed steps => "Built " ++ Decimal.text steps ++ " construction steps"
  | analyzed symbols steps number =>
    "Analyzed formula of " ++ Decimal.text symbols ++ " tokens: " ++ Decimal.text steps ++
      " steps, Gödel number of " ++ Decimal.text (Decimal.digits number).length ++ " digits"

/-- An event on one line. The time of day and the place in the program text, which a record shows
before the source and after it, are left out. -/
def line (event : Event) : String :=
  event.level.column ++ " [" ++ event.source ++ "] " ++ event.message ++ "\n"

/-- Whether an event is shown at the given level of detail. -/
def isShown (event : Event) (threshold : Level) : Bool := event.level.detail ≤ threshold.detail

end Event

/-- The events after reading a formula: the expression is constructed and the analysis complete. -/
def Analysis.events (analysis : Analysis) : List Event :=
  analysis.steps.map .stepEmitted ++
    [.constructed analysis.steps.length,
     .analyzed analysis.symbols.length analysis.steps.length analysis.encoding.number]

namespace Analyzer

/-- The events of analyzing a formula. Only the permissive grammar reports how far it read. -/
def events (analyzer : Analyzer) (formula : String) : List Event :=
  match analyzer.encoder.encode formula with
  | .error _ => []
  | .ok encoding =>
    let length := formula.length
    let symbols := (symbolsOf formula).length
    .encoded length encoding.number :: .tokenized length symbols ::
      match analyzer.run formula with
      | .error _ => [.rejected]
      | .ok analysis =>
        if analyzer.settings.strict then analysis.events
        else .parsed analysis.consumed symbols analysis.root.size :: analysis.events

end Analyzer

/-- The events of decoding a number. -/
def Encoder.events (encoder : Encoder) (number : Nat) : List Event :=
  match encoder.decode number with
  | .ok symbols => [.decoded symbols.length]
  | .error _ => []

end Arithmetization
