import Arithmetization.Analysis
import Arithmetization.Command.Arguments
import Arithmetization.Command.Run
import Arithmetization.Construction
import Arithmetization.Decimal
import Arithmetization.Encoding
import Arithmetization.Error
import Arithmetization.Event
import Arithmetization.Expression
import Arithmetization.Grammar.Permissive
import Arithmetization.Grammar.Reader
import Arithmetization.Grammar.Strict
import Arithmetization.Json
import Arithmetization.Main
import Arithmetization.Primes
import Arithmetization.Printing
import Arithmetization.Proofs.Analysis.Stability
import Arithmetization.Proofs.Decimal
import Arithmetization.Proofs.Encoding.Classification
import Arithmetization.Proofs.Encoding.Factorization
import Arithmetization.Proofs.Encoding.RoundTrip
import Arithmetization.Proofs.Grammar.Agreement
import Arithmetization.Proofs.Grammar.Derivation
import Arithmetization.Proofs.Grammar.Placeholders
import Arithmetization.Proofs.Grammar.Reading
import Arithmetization.Proofs.Grammar.Recognition
import Arithmetization.Proofs.Grammar.Viability
import Arithmetization.Proofs.Primes.Table
import Arithmetization.Proofs.Printing.PermissiveRoundTrip
import Arithmetization.Proofs.Printing.StrictRoundTrip
import Arithmetization.Proofs.Printing.Written
import Arithmetization.Proofs.Scanning
import Arithmetization.Report.Diagnostic
import Arithmetization.Report.Structured
import Arithmetization.Report.Text
import Arithmetization.Settings
import Arithmetization.Settings.Document
import Arithmetization.Symbol
import Arithmetization.Terminal
import Arithmetization.Text.Blank
import Arithmetization.Text.Hexadecimal
import Arithmetization.Text.Place
import Arithmetization.Text.Width
import Arithmetization.Text.Wrap
import Arithmetization.Token
import Arithmetization.Proofs.Grammar.Size
import Arithmetization.Proofs.Measures
import Arithmetization.Proofs.Analysis.Relaxation
import Arithmetization.Proofs.Analysis.Bounds
import Arithmetization.Proofs.Encoding.Identity
import Arithmetization.Proofs.Encoding.Alignment
import Arithmetization.Proofs.Construction.Places
import Arithmetization.Proofs.Construction.PostOrder
import Arithmetization.Proofs.Primes.Trials
import Arithmetization.Proofs.Analysis.Verdict
import Arithmetization.Proofs.Command.Sources
import Arithmetization.Proofs.Command.Verdict
import Arithmetization.Proofs.Command.Options
import Arithmetization.Proofs.Command.Feedback
import Arithmetization.Proofs.Decimal.Reading
import Arithmetization.Proofs.Grammar.Remainder
import Arithmetization.Proofs.Printing.Reprinting
import Arithmetization.Proofs.Grammar.Nesting
import Arithmetization.Proofs.Grammar.Operands
import Arithmetization.Proofs.Printing.Sites
import Arithmetization.Proofs.Printing.Parentheses
import Arithmetization.Proofs.Grammar.Conservation
import Arithmetization.Proofs.Encoding.LargerTables
import Arithmetization.Proofs.Command.Channels
import Arithmetization.Proofs.Command.Exchange
import Arithmetization.Proofs.Construction.Injectivity
import Arithmetization.Proofs.Command.Precedence
import Arithmetization.Proofs.Primes.Words
import Arithmetization.Proofs.Printing.Depths
import Arithmetization.Proofs.Terminal
import Arithmetization.Proofs.Printing.Colors
import Arithmetization.Proofs.Report.Colors
import Arithmetization.Proofs.Json
import Arithmetization.Proofs.Report.Structured
import Arithmetization.Proofs.Walks
import Arithmetization.Proofs.Wrapping
import Arithmetization.Proofs.Construction.Table
import Arithmetization.Proofs.Printing.Drawn
import Arithmetization.Proofs.Events
import Arithmetization.Proofs.Locating
import Arithmetization.Proofs.Json.Lines
import Arithmetization.Proofs.Report.Contents
import Arithmetization.Proofs.Report.Records
import Arithmetization.Proofs.Report.Pointing
import Arithmetization.Proofs.Report.Widths
import Arithmetization.Proofs.Command.Outputs
import Arithmetization.Proofs.Command.Widths
