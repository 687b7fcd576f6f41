import Arithmetization.Proofs.Analysis.Verdict
import Arithmetization.Proofs.Command.Outputs
import Arithmetization.Proofs.Command.Sources
import Arithmetization.Proofs.Decimal.Reading

/-! # What a request comes to

A request is carried out in stages: the settings document is read and understood, the capacity is
checked, and then either a number is read and decoded or a formula is selected and analyzed. The
first stage that fails decides what is reported. Where no stage fails, the report is complete and
the error stream has nothing but records of events.
-/

namespace Arithmetization.Command

open Surroundings

/-- A decoded formula, with a question mark for each symbol that is not there. -/
def spelled (places : List (Option Symbol)) : String :=
  String.ofList (places.map fun place => place.elim '?' Symbol.char)

/-- Settings with the options of a request, which replace the capacity and only add strictness. -/
def Request.override (request : Request) (base : Settings) : Settings :=
  { primeCapacity := request.primes.getD base.primeCapacity
    strict := base.strict || request.strict }

section

variable (surroundings : Surroundings) (request : Request)

/-- The settings that a request starts from: the defaults, or those of its settings document. -/
inductive StartsFrom : Settings → Prop where
  | defaults (noDocument : request.config = none) : StartsFrom ⟨256, false⟩
  | document {name text : String} {base : Settings} (given : request.config = some name)
    (found : surroundings.file name = .ok text.toUTF8)
    (valid : Settings.ofDocument? text = some base) : StartsFrom base

/-- A request is carried out under some settings if their capacity is admissible. -/
inductive Configures : Settings → Prop where
  | admissible {base : Settings} (start : StartsFrom surroundings request base)
    (bound : (request.override base).primeCapacity ≤ 4096) :
    Configures (request.override base)

/-- What a request comes to, with one case for each stage that can fail. Every case requires that
the stages before it did not fail. -/
inductive Verdict : Except Failure String → Prop where
  | documentUnreadable {name : String} {fault : ReadFault} (given : request.config = some name)
    (unreadable : Unreadable (surroundings.file name) fault) :
    Verdict (.error (.unreadable fault))
  | documentInvalid {name text : String} (given : request.config = some name)
    (found : surroundings.file name = .ok text.toUTF8)
    (invalid : Settings.ofDocument? text = none) :
    Verdict (.error (.invalidSettings name (surroundings.wording.settingsFault text)))
  | capacityTooLarge {base : Settings} (start : StartsFrom surroundings request base)
    (large : 4096 < (request.override base).primeCapacity) : Verdict (.error (.refused
      (.capacityTooLarge (request.override base).primeCapacity 4096)))
  | numberInvalid {settings : Settings} {text : String}
    (configured : Configures surroundings request settings) (asked : request.decode = some text)
    (invalid : ∀ number, ¬ Decimal.Decorated number text.toList) :
    Verdict (.error (.invalidNumber text))
  | numberRefused {settings : Settings} {text : String} {number : Nat} {error : Error}
    (configured : Configures surroundings request settings) (asked : request.decode = some text)
    (written : Decimal.Decorated number text.toList)
    (refused : Encoder.Verdict settings.primeCapacity number (.error error)) :
    Verdict (.error (.refused error))
  | decoded {settings : Settings} {text report : String} {number : Nat}
    {places : List (Option Symbol)}
    (configured : Configures surroundings request settings) (asked : request.decode = some text)
    (written : Decimal.Decorated number text.toList)
    (decoded : Encoder.Verdict settings.primeCapacity number (.ok places))
    (printed : PrintsDecoded surroundings request number (spelled places) report) :
    Verdict (.ok report)
  | nothingSelected {settings : Settings} {failure : Failure}
    (configured : Configures surroundings request settings) (analysis : request.decode = none)
    (selectsNone : SelectsNone surroundings request failure) : Verdict (.error failure)
  | tooLong {settings : Settings} {input : Input}
    (configured : Configures surroundings request settings) (analysis : request.decode = none)
    (selects : Selects surroundings request input)
    (long : settings.primeCapacity < input.formula.length) :
    Verdict (.error (.refused
      (.primesExhausted input.formula.length settings.primeCapacity)))
  | malformed {settings : Settings} {input : Input} {error : GrammarError}
    (configured : Configures surroundings request settings) (analysis : request.decode = none)
    (selects : Selects surroundings request input)
    (fits : input.formula.length ≤ settings.primeCapacity) (strict : settings.strict = true)
    (offence : Strict.FirstOffence (Token.scan input.formula) input.formula.length error) :
    Verdict (.error (.malformed input.name input.formula error))
  | analyzed {settings : Settings} {input : Input} {report : String}
    (configured : Configures surroundings request settings) (analysis : request.decode = none)
    (selects : Selects surroundings request input)
    (fits : input.formula.length ≤ settings.primeCapacity)
    (wellFormed : settings.strict = true → Strict.IsSentence (symbolsOf input.formula))
    (printed : PrintsAnalysis surroundings request (analysisOf input.formula) report) :
    Verdict (.ok report)

/-- The conditions under which a request succeeds. -/
structure Admits (settings : Settings) : Prop where
  configured : Configures surroundings request settings
  /-- A number to decode is one, and it is decoded under the capacity. -/
  decodes : ∀ text, request.decode = some text → ∃ number places,
    Decimal.Decorated number text.toList ∧
      Encoder.Verdict settings.primeCapacity number (.ok places)
  /-- Otherwise a formula is selected, which fits and, where this is asked for, is well formed. -/
  analyzes : request.decode = none → ∃ input, Selects surroundings request input ∧
    input.formula.length ≤ settings.primeCapacity ∧
      (settings.strict = true → Strict.IsSentence (symbolsOf input.formula))

end

variable {surroundings : Surroundings} {request : Request} {settings : Settings}

/-! ## Settings -/

theorem settings_of_startsFrom {base : Settings} (start : StartsFrom surroundings request base) :
    surroundings.settings request =
      ((request.override base).validate.mapError Failure.refused).map
        fun _ => request.override base := by
  cases start with
  | defaults noDocument =>
    simp only [Surroundings.settings, noDocument]
    rfl
  | document given found valid =>
    simp only [Surroundings.settings, given, fileText_of_text found, bind, Except.bind, valid, pure,
      Except.pure]
    rfl

theorem settings_of_configures (configured : Configures surroundings request settings) :
    surroundings.settings request = .ok settings ∧
      settings.primeCapacity ≤ Encoder.maxCapacity := by
  cases configured with
  | admissible start bound =>
    refine ⟨?_, bound⟩
    have within : ¬ Encoder.maxCapacity < _ := Nat.not_lt.mpr bound
    rw [settings_of_startsFrom start, Settings.validate, if_neg within]
    rfl

theorem settings_of_large {base : Settings} (start : StartsFrom surroundings request base)
    (large : 4096 < (request.override base).primeCapacity) : surroundings.settings request =
      .error (.refused (.capacityTooLarge (request.override base).primeCapacity 4096)) := by
  have past : Encoder.maxCapacity < _ := large
  rw [settings_of_startsFrom start, Settings.validate, if_pos past]
  rfl

/-- A request either has settings to start from or comes to a failure before. -/
theorem startsFrom_or_fails (surroundings : Surroundings) (request : Request) :
    (∃ base, StartsFrom surroundings request base) ∨
      ∃ failure, Verdict surroundings request (.error failure) := by
  cases config : request.config with
  | none => exact .inl ⟨_, .defaults config⟩
  | some name =>
    rcases text_or_unreadable (surroundings.file name) with ⟨text, found⟩ | ⟨fault, unreadable⟩
    · cases document : Settings.ofDocument? text with
      | none => exact .inr ⟨_, .documentInvalid config found document⟩
      | some base => exact .inl ⟨_, .document config found document⟩
    · exact .inr ⟨_, .documentUnreadable config unreadable⟩

/-! ## Results -/

section

variable (configured : Configures surroundings request settings)

include configured

/-- A request to decode a decimal comes to what its number is decoded as. -/
theorem execute_of_number {text : String} {number : Nat} (asked : request.decode = some text)
    (written : Decimal.Decorated number text.toList) :
    (execute surroundings request).2 =
      ((Encoder.decodeFormula ⟨.first settings.primeCapacity⟩ number).mapError .refused).map
        fun formula => formatted request
          (fun _ => Report.decodedText surroundings.width surroundings.color (Decimal.text number)
            formula)
          (fun _ => Report.decodedJson (Decimal.text number) formula) := by
  obtain ⟨found, bound⟩ := settings_of_configures configured
  have read := Decimal.ofText?_eq_some_iff.mpr written
  simp only [execute, found, asked, decode, read, Settings.encoder, Encoder.ofCapacity_eq_ok bound]
  cases Encoder.decodeFormula ⟨.first settings.primeCapacity⟩ number <;> rfl

/-- A request to analyze a formula comes to the analysis of what is selected. -/
theorem execute_of_input {input : Input} (analysis : request.decode = none)
    (selects : Selects surroundings request input) :
    (execute surroundings request).2 =
      ((Analyzer.run ⟨settings, ⟨.first settings.primeCapacity⟩⟩ input.formula).mapError
        (refusal input)).map fun analysis => formatted request
          (fun _ => Report.analysisText surroundings.width surroundings.color analysis)
          (fun _ => Report.analysisJson analysis) := by
  obtain ⟨found, bound⟩ := settings_of_configures configured
  simp only [execute, found, analysis, input_of_selects selects, analyze,
    Analyzer.ofSettings_eq_ok bound]
  cases Analyzer.run ⟨settings, ⟨.first settings.primeCapacity⟩⟩ input.formula <;> rfl

end

theorem execute_of_verdict {result : Except Failure String}
    (verdict : Verdict surroundings request result) :
    (execute surroundings request).2 = result := by
  cases verdict with
  | documentUnreadable given unreadable =>
    simp only [execute, Surroundings.settings, given, fileText_of_unreadable unreadable]
    rfl
  | documentInvalid given found invalid =>
    simp only [execute, Surroundings.settings, given, fileText_of_text found, bind, Except.bind,
      invalid]
  | capacityTooLarge start large => rw [execute, settings_of_large start large]
  | numberInvalid configured asked invalid =>
    obtain ⟨found, _⟩ := settings_of_configures configured
    simp only [execute, found, asked, decode, Decimal.ofText?_eq_none_iff.mpr invalid]
  | numberRefused configured asked written refused =>
    rw [execute_of_number configured asked written, Encoder.decodeFormula,
      Encoder.decode_first_eq_iff.mpr refused]
    rfl
  | decoded configured asked written decoded printed =>
    rw [execute_of_number configured asked written, Encoder.decodeFormula,
      Encoder.decode_first_eq_iff.mpr decoded, printsDecoded_iff.mp printed]
    rfl
  | nothingSelected configured analysis selectsNone =>
    obtain ⟨found, _⟩ := settings_of_configures configured
    simp only [execute, found, analysis, input_of_selectsNone selectsNone]
  | tooLong configured analysis selects long =>
    rw [execute_of_input configured analysis selects, Analyzer.run_first_of_long long]
    rfl
  | malformed configured analysis selects fits strict offence =>
    rw [execute_of_input configured analysis selects,
      Analyzer.run_first_of_malformed fits strict offence]
    rfl
  | analyzed configured analysis selects fits wellFormed printed =>
    rw [execute_of_input configured analysis selects, Analyzer.run_first_of_fits fits wellFormed,
      printsAnalysis_iff.mp printed]
    rfl

/-- A request to decode a text comes to something once it has settings. -/
theorem exists_verdict_of_decode {text : String}
    (configured : Configures surroundings request settings) (asked : request.decode = some text) :
    ∃ result, Verdict surroundings request result := by
  cases read : Decimal.ofText? text with
  | none => exact ⟨_, .numberInvalid configured asked (Decimal.ofText?_eq_none_iff.mp read)⟩
  | some number =>
    have written := Decimal.ofText?_eq_some_iff.mp read
    have verdict := Encoder.decode_first_eq_iff.mp
      (Eq.refl (Encoder.decode ⟨.first settings.primeCapacity⟩ number))
    cases result : Encoder.decode ⟨.first settings.primeCapacity⟩ number with
    | error error =>
      rw [result] at verdict
      exact ⟨_, .numberRefused configured asked written verdict⟩
    | ok places =>
      rw [result] at verdict
      exact ⟨_, .decoded configured asked written verdict (printsDecoded_iff.mpr rfl)⟩

/-- A request to analyze a formula comes to something once it has settings. -/
theorem exists_verdict_of_analysis (configured : Configures surroundings request settings)
    (analysis : request.decode = none) : ∃ result, Verdict surroundings request result := by
  rcases selects_or_selectsNone surroundings request with ⟨input, selects⟩ | ⟨failure, selectsNone⟩
  · rcases Nat.lt_or_ge settings.primeCapacity input.formula.length with long | fits
    · exact ⟨_, .tooLong configured analysis selects long⟩
    · by_cases wellFormed : settings.strict = true → Strict.IsSentence (symbolsOf input.formula)
      · exact ⟨_, .analyzed configured analysis selects fits wellFormed (printsAnalysis_iff.mpr rfl)⟩
      · obtain ⟨strict, foreign⟩ := Classical.not_imp.mp wellFormed
        obtain ⟨error, offence⟩ := Strict.exists_firstOffence foreign
        exact ⟨_, .malformed configured analysis selects fits strict offence⟩
  · exact ⟨_, .nothingSelected configured analysis selectsNone⟩

/-- Every request comes to something. -/
theorem exists_verdict (surroundings : Surroundings) (request : Request) :
    ∃ result, Verdict surroundings request result := by
  rcases startsFrom_or_fails surroundings request with ⟨base, start⟩ | ⟨failure, failed⟩
  · rcases Nat.lt_or_ge 4096 (request.override base).primeCapacity with large | bound
    · exact ⟨_, .capacityTooLarge start large⟩
    · have configured := Configures.admissible start bound
      cases asked : request.decode with
      | some text => exact exists_verdict_of_decode configured asked
      | none => exact exists_verdict_of_analysis configured asked
  · exact ⟨_, failed⟩

/-- A request comes to exactly one thing. -/
theorem execute_eq_iff {result : Except Failure String} :
    (execute surroundings request).2 = result ↔ Verdict surroundings request result := by
  refine ⟨?_, execute_of_verdict⟩
  rintro rfl
  obtain ⟨result, verdict⟩ := exists_verdict surroundings request
  rwa [execute_of_verdict verdict]

/-- A request comes to a report if it is carried out under settings that admit it. -/
theorem exists_report_iff : (∃ report, Verdict surroundings request (.ok report)) ↔
    ∃ settings, Admits surroundings request settings := by
  constructor
  · rintro ⟨report, verdict⟩
    cases verdict with
    | decoded configured asked written decoded printed =>
      refine ⟨_, configured, fun text given => ?_, fun none => ?_⟩
      · obtain rfl := Option.some.inj (asked.symm.trans given)
        exact ⟨_, _, written, decoded⟩
      · rw [none] at asked
        contradiction
    | analyzed configured analysis selects fits wellFormed printed =>
      refine ⟨_, configured, fun text given => ?_, fun _ => ⟨_, selects, fits, wellFormed⟩⟩
      rw [analysis] at given
      contradiction
  · rintro ⟨settings, configured, decodes, analyzes⟩
    cases asked : request.decode with
    | some text =>
      obtain ⟨number, places, written, decoded⟩ := decodes text asked
      exact ⟨_, .decoded configured asked written decoded (printsDecoded_iff.mpr rfl)⟩
    | none =>
      obtain ⟨input, selects, fits, wellFormed⟩ := analyzes asked
      exact ⟨_, .analyzed configured asked selects fits wellFormed (printsAnalysis_iff.mpr rfl)⟩

/-- Failures are told of in words of their own. -/
theorem Verdict.told_iff {failure : Failure} (verdict : Verdict surroundings request (.error failure))
    {text : String} : failure.Told text ↔ text = failure.report := by
  have named : ∀ error, failure ≠ .refused (.malformedGrammar error) := by
    rintro error rfl
    cases verdict with
    | numberRefused configured asked written refused => cases refused
    | nothingSelected configured analysis selectsNone => cases selectsNone
  constructor
  · intro told
    exact told.unique (told_report named)
  · rintro rfl
    exact told_report named

/-! ## Runs -/

section

variable (surroundings) {arguments : List String}
  (accepted : Action.ofArguments? arguments = some (.run request))

include accepted

/-- What an accepted command line comes to is what it writes, besides records. -/
theorem exists_records : ∃ records, AreRecords request.verbosity records ∧
    (∀ report, Verdict surroundings request (.ok report) →
      run surroundings arguments = ⟨0, report, records⟩) ∧
    ∀ failure, Verdict surroundings request (.error failure) →
      run surroundings arguments = ⟨1, "", records ++ failure.report⟩ := by
  refine ⟨_, areRecords_shownEvents request (isTabled_of_mem_execute surroundings request), ?_, ?_⟩
  · intro report verdict
    simp only [run, accepted, execute_of_verdict verdict]
  · intro failure verdict
    simp only [run, accepted, execute_of_verdict verdict]

theorem status_eq_zero_iff : (run surroundings arguments).status = 0 ↔
    ∃ report, Verdict surroundings request (.ok report) := by
  obtain ⟨records, _, succeeds, fails⟩ := exists_records surroundings accepted
  constructor
  · intro status
    obtain ⟨result, verdict⟩ := exists_verdict surroundings request
    cases result with
    | ok report => exact ⟨report, verdict⟩
    | error failure =>
      rw [fails failure verdict] at status
      contradiction
  · rintro ⟨report, verdict⟩
    rw [succeeds report verdict]

end

/-- A run that is asked for an analysis or a decoding succeeds exactly if nothing fails, and then
writes the report. Otherwise it writes nothing but the first failure. -/
theorem run_reports_first_failure (surroundings : Surroundings) (request : Request)
    (arguments : List String) (accepted : Action.ofArguments? arguments = some (.run request)) :
    ((run surroundings arguments).status = 0 ↔
      ∃ settings, Admits surroundings request settings) ∧
    (∃! result, Verdict surroundings request result) ∧
    ∃ records, AreRecords request.verbosity records ∧ (request.verbosity = 0 → records = "") ∧
      (∀ report, Verdict surroundings request (.ok report) →
        run surroundings arguments = ⟨0, report, records⟩) ∧
      ∀ failure, Verdict surroundings request (.error failure) →
        (∃ text, failure.Told text) ∧
          ∀ text, failure.Told text → run surroundings arguments = ⟨1, "", records ++ text⟩ := by
  obtain ⟨records, shown, succeeds, fails⟩ := exists_records surroundings accepted
  refine ⟨(status_eq_zero_iff surroundings accepted).trans exists_report_iff,
    ⟨_, execute_eq_iff.mp rfl, ?_⟩, records, shown, fun silent => ?_, succeeds, ?_⟩
  · intro other verdict
    exact (execute_eq_iff.mpr verdict).symm
  · rw [silent] at shown
    exact shown.eq_empty
  · intro failure verdict
    refine ⟨⟨_, verdict.told_iff.mpr rfl⟩, fun text told => ?_⟩
    rw [verdict.told_iff.mp told]
    exact fails failure verdict

/-- An option repairs the capacity that the document asks for, so the strict grammar, which the
document asks for as well, is the first to refuse. -/
theorem run_reports_first_failure_repaired :
    ∃ surroundings request arguments text, Action.ofArguments? arguments = some (.run request) ∧
      surroundings.file "settings" = .ok text.toUTF8 ∧
      Settings.ofDocument? text = some ⟨5000, true⟩ ∧
      arguments = ["--config", "settings", "--primes=3", "-cx+"] ∧
      run surroundings arguments =
        ⟨1, "", "Error: unexpected end of input at position 2\n" ++
          "   ╭─[ <code>:1:3 ]\n" ++
          "   │\n" ++
          " 1 │ x+\n" ++
          "   │   │ \n" ++
          "   │   ╰─ The formula ends too early\n" ++
          "───╯\n"⟩ := by
  let text := "prime_capacity = 5_000\nstrict = true\n"
  let surroundings : Surroundings :=
    { stdin := .error "unused"
      file := fun _ => .ok text.toUTF8
      color := false
      columns := none
      wording := ⟨fun _ => "", "", fun _ => ""⟩ }
  let request : Request := { config := some "settings", primes := some 3, code := some "x+" }
  have accepted : Action.ofArguments? ["--config", "settings", "--primes=3", "-cx+"] =
      some (.run request) := by decide +kernel
  have valid : Settings.ofDocument? text = some ⟨5000, true⟩ := by decide +kernel
  have start : StartsFrom surroundings request ⟨5000, true⟩ := .document rfl rfl valid
  have configured : Configures surroundings request ⟨3, true⟩ := .admissible start (by decide)
  have refused : Strict.parse (Token.scan "x+") 2 = .error (.unexpectedEnd 2) := rfl
  have offence := Strict.parse_eq_error_iff.mp refused
  have verdict : Verdict surroundings request
      (.error (.malformed "<code>" "x+" (.unexpectedEnd 2))) :=
    .malformed configured rfl (.code rfl) (by decide) rfl offence
  obtain ⟨_, _, records, _, silent, _, fails⟩ :=
    run_reports_first_failure surroundings request _ accepted
  have failed := (fails _ verdict).2
  simp only [silent rfl, String.empty_append] at failed
  refine ⟨surroundings, request, _, text, accepted, rfl, valid, rfl, ?_⟩
  refine failed _ (.malformed (Report.diagnoses_iff.mpr ?_))
  decide +kernel

end Arithmetization.Command
