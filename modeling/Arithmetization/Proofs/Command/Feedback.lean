import Arithmetization.Proofs.Analysis.Stability
import Arithmetization.Proofs.Command.Options
import Arithmetization.Proofs.Command.Verdict
import Arithmetization.Proofs.Encoding.Alignment

/-! # A printed number can be fed back

The report on a formula ends with its number in decimal. With decorations or without, this decimal
is decoded under the same capacity as what the number shows of the formula, and the report on the
decoding has the plain decimal again.
-/

namespace Arithmetization

/-- What a formula has on its places is decoded from its number. -/
theorem Encoder.exists_verdict_encodingOf {capacity : Nat} {formula : String}
    (fits : formula.length ≤ capacity) : ∃ places,
      Verdict capacity (encodingOf formula).number (.ok places) ∧
        Command.spelled places = shownFormula formula := by
  have encoded := encode_first_eq_ok_iff.mpr ⟨fits, rfl⟩
  have decoded := decode_encode (distinctPrimes_first capacity) encoded
  exact ⟨_, decode_first_eq_iff.mp decoded, formulaOf_rdropWhile formula⟩

/-! ## The number in a report -/

/-- The record of an analysis ends with its number. -/
theorem Report.exists_front (analysis : Analysis) : ∃ front, analysisJson analysis ++ "\n" =
    front ++ "\"godel_number\": \"" ++ toString analysis.encoding.number ++
      "\"\n  \x7d\n\x7d\n" := by
  have newline : Json.newline 0 = "\n" ∧ Json.newline 1 = "\n  " := ⟨rfl, rfl⟩
  have key : Json.quote "godel_number" = "\"godel_number\"" := by decide
  simp only [analysisJson, analysisValue, encodingJson, Json.pretty, Json.prettyMembers,
    Decimal.text_eq_toString, Json.quote_eq_quoted (toString _), Json.quoted_toString,
    ← String.append_assoc, newline, key, String.append_empty]
  have opening : "\"godel_number\": \"" = "\"godel_number\"" ++ ": " ++ "\"" := by decide
  have closing : "\"\n  \x7d\n\x7d\n" = "\"" ++ "\n  " ++ "\x7d" ++ "\n" ++ "\x7d" ++ "\n" := by
    decide
  simp only [opening, closing, ← String.append_assoc]
  exact ⟨_, rfl⟩

namespace Command

open Surroundings

/-- A text is decoded as a formula under a capacity, whatever else is asked for, and the reports
show the formula and the plain decimal of its number. -/
structure FedBack (capacity number : Nat) (formula text : String) : Prop where
  jsonReport : ∀ surroundings, run surroundings
      ["--decode=" ++ text, "--primes", toString capacity, "--format", "json"] =
    ⟨0, s!"\x7b\n  \"number\": \"{number}\",\n  \"formula\": \"{formula}\"\n\x7d\n", ""⟩
  textReport : ∀ surroundings, ∃ report,
    Report.ReportsDecoded (surroundings.columns.getD 80) surroundings.color number formula report ∧
      run surroundings ["--decode=" ++ text, "--primes", toString capacity] = ⟨0, report, ""⟩
  /-- Other options and a settings document make no difference but for the records. -/
  otherOptions : ∀ surroundings request arguments base,
    Action.ofArguments? arguments = some (.run request) → request.decode = some text →
    request.primes = some capacity → StartsFrom surroundings request base →
    ∃ report records, PrintsDecoded surroundings request number formula report ∧
      AreRecords request.verbosity records ∧ run surroundings arguments = ⟨0, report, records⟩

section

variable {capacity number : Nat} {formula text : String}

/-- The options for feeding a text back, before others. -/
theorem readArguments?_feedback (text : String) (word : capacity ≤ Decimal.maxWord)
    (rest : List String) :
    readArguments? {} (("--decode=" ++ text) :: "--primes" :: toString capacity :: rest) =
      readArguments? { decode := some text, primes := some capacity } rest := by
  have decode : "--decode=" = "--" ++ ValueOption.decode.longName ++ "=" := by decide
  have primes : "--primes" = "--" ++ ValueOption.primes.longName := by decide
  rw [decode, primes, ← Decimal.text_eq_toString, readArguments?_assigned]
  simp only [Request.assign?, once?, Option.map_some, Option.bind_some]
  rw [readArguments?_separate _ _ _ (isValue_text capacity)]
  simp only [Request.assign?, once?, number?_text word, Option.map_some, Option.bind_some]

theorem readArguments?_json (request : Request) (unset : request.format = none) :
    readArguments? request ["--format", "json"] =
      some (.run { request with format := some .json }) := by
  have format : "--format" = "--" ++ ValueOption.format.longName := by decide
  rw [format, readArguments?_separate _ _ _ (by decide)]
  simp only [Request.assign?, once?, unset]
  rfl

variable {places : List (Option Symbol)} (bound : capacity ≤ Encoder.maxCapacity)
  (written : Decimal.Decorated number text.toList)
  (decoded : Encoder.Verdict capacity number (.ok places))

include bound written decoded

theorem run_decoded (surroundings : Surroundings) {request : Request} {arguments : List String}
    {base : Settings} (accepted : Action.ofArguments? arguments = some (.run request))
    (asked : request.decode = some text) (primes : request.primes = some capacity)
    (start : StartsFrom surroundings request base) :
    ∃ report records, PrintsDecoded surroundings request number (spelled places) report ∧
      AreRecords request.verbosity records ∧ run surroundings arguments = ⟨0, report, records⟩ := by
  have overridden : (request.override base).primeCapacity = capacity := by
    rw [Request.override, primes, Option.getD_some]
  rw [← overridden] at bound decoded
  have printed : PrintsDecoded surroundings request number (spelled places) _ :=
    printsDecoded_iff.mpr rfl
  have verdict := Verdict.decoded (.admissible start bound) asked written decoded printed
  obtain ⟨records, shown, succeeds, _⟩ := exists_records surroundings accepted
  exact ⟨_, records, printed, shown, succeeds _ verdict⟩

theorem fedBack_of_decoded : FedBack capacity number (spelled places) text := by
  have word : capacity ≤ Decimal.maxWord := bound.trans (by decide)
  constructor
  case otherOptions =>
    intro surroundings request arguments base accepted asked primes start
    exact run_decoded bound written decoded surroundings accepted asked primes start
  case jsonReport =>
    intro surroundings
    have accepted := (readArguments?_feedback text word _).trans (readArguments?_json _ rfl)
    obtain ⟨report, records, printed, shown, outcome⟩ :=
      run_decoded bound written decoded surroundings accepted rfl rfl (.defaults rfl)
    obtain rfl := shown.eq_empty
    rw [outcome]
    cases printed with
    | text textual _ => contradiction
    | json _ => rfl
  case textReport =>
    intro surroundings
    have accepted := readArguments?_feedback text word []
    obtain ⟨report, records, printed, shown, outcome⟩ :=
      run_decoded bound written decoded surroundings accepted rfl rfl (.defaults rfl)
    obtain rfl := shown.eq_empty
    cases printed with
    | text _ holds => exact ⟨report, holds, outcome⟩
    | json asked => contradiction

end

/-- The number that a successful analysis prints in its JSON report is decoded from each of its
decorated decimals, under the capacity of the analysis. -/
theorem printed_number_fed_back (surroundings : Surroundings) (request : Request)
    (arguments : List String) (accepted : Action.ofArguments? arguments = some (.run request))
    (analysis : request.decode = none) (json : request.format = some .json)
    (succeeds : (run surroundings arguments).status = 0) :
    ∃ settings input number front, Configures surroundings request settings ∧
      settings.primeCapacity ≤ 4096 ∧ Selects surroundings request input ∧
      (encodingOf input.formula).number = number ∧
      (run surroundings arguments).stdout =
        front ++ "\"godel_number\": \"" ++ toString number ++ "\"\n  \x7d\n\x7d\n" ∧
      ∀ text : String, Decimal.Decorated number text.toList →
        FedBack settings.primeCapacity number (shownFormula input.formula) text := by
  obtain ⟨report, verdict⟩ := (status_eq_zero_iff surroundings accepted).mp succeeds
  obtain ⟨records, _, written, _⟩ := exists_records surroundings accepted
  have outcome := written report verdict
  cases verdict with
  | decoded configured asked written decoded printed =>
    rw [analysis] at asked
    contradiction
  | @analyzed settings input _ configured _ selects fits wellFormed printed =>
    obtain ⟨_, bound⟩ := settings_of_configures configured
    obtain ⟨front, ends⟩ := Report.exists_front (analysisOf input.formula)
    obtain ⟨places, decoded, shown⟩ := Encoder.exists_verdict_encodingOf fits
    refine ⟨settings, input, _, front, configured, bound, selects, rfl, ?_, ?_⟩
    · rw [outcome, printsAnalysis_iff.mp printed, formatted_of_json json]
      exact ends
    · intro text decorated
      rw [← shown]
      exact fedBack_of_decoded bound decorated decoded

/-- The number of a formula with a foreign character at its end, which decoding does not show. -/
theorem printed_number_fed_back_decorated :
    ∃ surroundings request arguments, Action.ofArguments? arguments = some (.run request) ∧
      request.decode = none ∧ request.format = some .json ∧
      arguments = ["-cx#", "--primes=2", "--format=json"] ∧
      (run surroundings arguments).status = 0 ∧
      (∃ front, (run surroundings arguments).stdout =
        front ++ "\"godel_number\": \"" ++ "32768" ++ "\"\n  \x7d\n\x7d\n") ∧
      (∀ other, run other ["--decode= +0_32_768\u3000", "--primes", "2", "--format", "json"] =
        ⟨0, "\x7b\n  \"number\": \"32768\",\n  \"formula\": \"x\"\n\x7d\n", ""⟩) ∧
      ∀ other : Surroundings, other.color = false → other.columns = some 5 →
        run other ["--decode= +0_32_768\u3000", "--primes", "2"] =
          ⟨0, "Decoded formula:\n  x\nFrom Gödel number:\n  327\n  68\n", ""⟩ := by
  let surroundings : Surroundings :=
    { stdin := .error "unused"
      file := fun _ => .error "unused"
      color := false
      columns := none
      wording := ⟨fun _ => "", "", fun _ => ""⟩ }
  let request : Request := { code := some "x#", primes := some 2, format := some .json }
  have accepted : Action.ofArguments? ["-cx#", "--primes=2", "--format=json"] =
      some (.run request) := by decide +kernel
  have verdict : Verdict surroundings request _ :=
    .analyzed (.admissible (.defaults rfl) (by decide)) rfl (.code rfl) (by decide) nofun
      (printsAnalysis_iff.mpr rfl)
  have succeeds : (run surroundings ["-cx#", "--primes=2", "--format=json"]).status = 0 :=
    (status_eq_zero_iff surroundings accepted).mpr ⟨_, verdict⟩
  obtain ⟨settings, input, number, front, configured, _, selects, same, printed, fed⟩ :=
    printed_number_fed_back surroundings request _ accepted rfl rfl succeeds
  obtain rfl : ⟨2, false⟩ = settings := Except.ok.inj (settings_of_configures configured).1
  obtain rfl : ⟨"<code>", "x#"⟩ = input := Except.ok.inj (input_of_selects selects)
  obtain rfl : 32768 = number := by
    have scanned : Token.scan "x#" = [⟨.letter .x, 0, 1⟩] := by decide
    rw [← same, number_encodingOf, scanned]
    simp [Symbol.code]
  have decorated : Decimal.Decorated 32768 " +0_32_768\u3000".toList :=
    Decimal.ofText?_eq_some_iff.mp (by decide +kernel)
  have fedBack := fed _ decorated
  have shown : shownFormula "x#" = "x" := by decide
  have option : "--decode=" ++ " +0_32_768\u3000" = "--decode= +0_32_768\u3000" := by decide
  have drawn : Report.decodedText 5 false (Decimal.text 32768) "x" =
      "Decoded formula:\n  x\nFrom Gödel number:\n  327\n  68\n" := by decide +kernel
  refine ⟨surroundings, request, _, accepted, rfl, rfl, rfl, succeeds, ⟨front, printed⟩, ?_, ?_⟩
  · intro other
    have report := fedBack.jsonReport other
    rw [shown, option] at report
    exact report
  · intro other plain narrow
    obtain ⟨report, holds, outcome⟩ := fedBack.textReport other
    rw [shown, plain, narrow, Option.getD_some, Report.reportsDecoded_iff] at holds
    rw [option, holds, drawn] at outcome
    exact outcome

end Command

end Arithmetization
