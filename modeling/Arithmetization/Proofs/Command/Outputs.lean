import Arithmetization.Command.Run
import Arithmetization.Proofs.Events
import Arithmetization.Proofs.Report.Contents
import Arithmetization.Proofs.Report.Pointing
import Arithmetization.Proofs.Report.Records

/-! # What a run writes

A run writes a report in the format that it is asked for, or it tells of a failure, and it may write
records of events before. Each of these is described by its words, which leave a run no choice about
what to write.
-/

namespace Arithmetization.Command

section

variable (surroundings : Surroundings) (request : Request)

/-- What is printed of a number that was decoded. A text report is as wide as the terminal, or takes
80 columns where there is none. -/
inductive PrintsDecoded (number : Nat) (formula : String) : String → Prop where
  | text {report : String} (textual : request.format ≠ some .json)
    (holds : Report.ReportsDecoded (surroundings.columns.getD 80) surroundings.color number formula
      report) : PrintsDecoded number formula report
  | json (asked : request.format = some .json) :
    PrintsDecoded number formula (Report.decodedRecord number formula)

/-- What is printed of an analysis. -/
inductive PrintsAnalysis (analysis : Analysis) : String → Prop where
  | text {report : String} (textual : request.format ≠ some .json)
    (holds : Report.ReportsAnalysis (surroundings.columns.getD 80) surroundings.color analysis
      report) : PrintsAnalysis analysis report
  | json {report : String} (asked : request.format = some .json)
    (holds : Report.RecordsAnalysis analysis report) : PrintsAnalysis analysis report

end

/-- What is told of a failure. -/
inductive Failure.Told : Failure → String → Prop where
  | system {message : String} :
    Told (.unreadable (.system message)) s!"Error: I/O error: {message}\n"
  | invalidEncoding : Told (.unreadable .invalidEncoding)
      "Error: I/O error: stream did not contain valid UTF-8\n"
  | invalidSettings {name message : String} : Told (.invalidSettings name message)
      s!"Error: invalid configuration file `{name}`: {message}\n"
  | noInput : Told .noInput
      "Error: no input provided, use --code <FORMULA>, --stdin or --file <FILE>\n"
  | invalidNumber {text : String} : Told (.invalidNumber text)
      s!"Error: `{text}` is not a decimal natural number\n"
  | primesExhausted {length available : Nat} : Told (.refused (.primesExhausted length available))
      (s!"Error: Formula of {length} characters cannot be encoded: " ++
        s!"only {available} primes are available.\n")
  | capacityTooLarge {requested limit : Nat} : Told (.refused (.capacityTooLarge requested limit))
      s!"Error: Cannot build a table of {requested} primes: at most {limit} are supported.\n"
  | zero {number : Nat} : Told (.refused (.notAnEncoding number .zero))
      s!"Error: {number} is not a Gödel number: zero has no prime factorization\n"
  | exponentTooLarge {number prime position : Nat} :
    Told (.refused (.notAnEncoding number (.exponentTooLarge prime position)))
      (s!"Error: {number} is not a Gödel number: the exponent of {prime} at position " ++
        s!"{position} exceeds the largest symbol code 17\n")
  | factorsBeyondTable {number available : Nat} :
    Told (.refused (.notAnEncoding number (.factorsBeyondTable available)))
      (s!"Error: {number} is not a Gödel number: it has prime factors beyond the first " ++
        s!"{available} primes\n")
  | malformed {name formula text : String} {error : GrammarError}
    (diagnoses : Report.Diagnoses name formula error text) :
    Told (.malformed name formula error) text

/-! ## Reports -/

section

variable {surroundings : Surroundings} {request : Request} {report : String}

theorem formatted_of_json (asked : request.format = some .json) (text json : Unit → String) :
    formatted request text json = json () ++ "\n" := by
  rw [formatted, asked]
  rfl

theorem formatted_of_text (textual : request.format ≠ some .json) (text json : Unit → String) :
    formatted request text json = text () := by
  have plain : request.format.getD .text = .text := by
    cases format : request.format with
    | none => rfl
    | some chosen =>
      cases chosen with
      | text => rfl
      | json => contradiction
  rw [formatted, plain]

theorem printsDecoded_iff {number : Nat} {places : List (Option Symbol)} :
    PrintsDecoded surroundings request number (Encoder.formulaOf places) report ↔
      report = formatted request
        (fun _ => Report.decodedText surroundings.width surroundings.color (Decimal.text number)
          (Encoder.formulaOf places))
        (fun _ => Report.decodedJson (Decimal.text number) (Encoder.formulaOf places)) := by
  by_cases json : request.format = some .json
  · rw [formatted_of_json json, Report.decodedJson_eq_decodedRecord]
    constructor
    · rintro (⟨textual, -⟩ | -)
      · contradiction
      · rfl
    · rintro rfl
      exact .json json
  · rw [formatted_of_text json, ← Report.reportsDecoded_iff]
    constructor
    · rintro (⟨-, holds⟩ | asked)
      · exact holds
      · contradiction
    · exact .text json

theorem printsAnalysis_iff {analysis : Analysis} :
    PrintsAnalysis surroundings request analysis report ↔
      report = formatted request
        (fun _ => Report.analysisText surroundings.width surroundings.color analysis)
        (fun _ => Report.analysisJson analysis) := by
  by_cases json : request.format = some .json
  · rw [formatted_of_json json, ← Report.recordsAnalysis_iff]
    constructor
    · rintro (⟨textual, -⟩ | ⟨-, holds⟩)
      · contradiction
      · exact holds
    · exact .json json
  · rw [formatted_of_text json, ← Report.reportsAnalysis_iff]
    constructor
    · rintro (⟨-, holds⟩ | ⟨asked, -⟩)
      · exact holds
      · contradiction
    · exact .text json

end

/-! ## Failures -/

theorem Failure.Told.of_toList {failure : Failure} {text report : String}
    (told : failure.Told report) (same : text.toList = report.toList) : failure.Told text :=
  String.toList_inj.mp same ▸ told

/-- A failure is told of in no other words. -/
theorem Failure.Told.unique {failure : Failure} {text other : String} (told : failure.Told text)
    (toldOther : failure.Told other) : text = other := by
  cases told <;> cases toldOther <;> try rfl
  next diagnoses diagnoses' =>
    rw [Report.diagnoses_iff.mp diagnoses, Report.diagnoses_iff.mp diagnoses']

/-- Every failure is told of in the words of its report, but for grammar errors without a name, which
no request comes to. -/
theorem told_report {failure : Failure}
    (named : ∀ error, failure ≠ .refused (.malformedGrammar error)) :
    failure.Told failure.report := by
  unfold Failure.report
  cases failure with
  | unreadable fault =>
    cases fault with
    | system message => exact .system
    | invalidEncoding => exact Failure.Told.invalidEncoding.of_toList (by simp [ReadFault.message])
  | invalidSettings name message => exact .invalidSettings
  | noInput => exact .noInput
  | invalidNumber text => exact .invalidNumber
  | malformed name formula error => exact .malformed (Report.diagnoses_iff.mpr rfl)
  | refused error =>
    unfold Error.message
    cases error with
    | malformedGrammar error => exact absurd rfl (named error)
    | primesExhausted length available =>
      exact Failure.Told.primesExhausted.of_toList (by simp [Decimal.text_eq_toString])
    | capacityTooLarge requested limit =>
      exact Failure.Told.capacityTooLarge.of_toList (by simp [Decimal.text_eq_toString])
    | notAnEncoding number fault =>
      unfold DecodingFault.message
      cases fault with
      | zero => exact Failure.Told.zero.of_toList (by simp [Decimal.text_eq_toString])
      | exponentTooLarge prime position =>
        have codes : toString Symbol.count = "17" := by decide
        exact Failure.Told.exponentTooLarge.of_toList
          (by simp [Decimal.text_eq_toString, codes])
      | factorsBeyondTable available =>
        exact Failure.Told.factorsBeyondTable.of_toList (by simp [Decimal.text_eq_toString])

/-! ## Records -/

/-- What is shown of events has nothing but records. -/
theorem areRecords_shownEvents (request : Request) {events : List Event}
    (tabled : ∀ event ∈ events, event.IsTabled) :
    AreRecords request.verbosity (shownEvents request events) := by
  have joined := @areRecords_of_isTabled events request.verbosity tabled
  rwa [String.join, List.foldl_map] at joined

theorem isTabled_of_mem_execute (surroundings : Surroundings) (request : Request) :
    ∀ event ∈ (execute surroundings request).1, event.IsTabled := by
  have decoding (settings : Settings) (text : String) :
      ∀ event ∈ (decode surroundings request settings text).1, event.IsTabled := by
    rw [decode]
    split
    · nofun
    · split
      · nofun
      · next encoder _ =>
        exact List.forall_mem_cons.mpr ⟨trivial, encoder.isTabled_of_mem_events _⟩
  have analysis (settings : Settings) (input : Input) :
      ∀ event ∈ (analyze surroundings request settings input).1, event.IsTabled := by
    rw [analyze]
    split
    · nofun
    · next analyzer _ =>
      exact List.forall_mem_cons.mpr ⟨trivial, analyzer.isTabled_of_mem_events _⟩
  rw [execute]
  split
  · nofun
  · refine List.forall_mem_cons.mpr ⟨trivial, ?_⟩
    split
    · exact decoding _ _
    · split
      · nofun
      · exact analysis _ _

end Arithmetization.Command
