import Arithmetization.Proofs.Command.Outputs
import Arithmetization.Proofs.Report.Widths

/-! # Runs in terminals of other widths

The number at the end of a text report is cut into lines of the width of the terminal; nothing else
depends on it. So a run in a terminal of another width ends in the same way, and it writes the same
but for where the lines end. A report in the JSON form has no lines of a width.
-/

namespace Arithmetization.Command

/-- A command line asks for a report in the JSON form. -/
def AsksForRecord (arguments : List String) : Prop :=
  ∃ request, Action.ofArguments? arguments = some (.run request) ∧ request.format = some .json

section

variable (surroundings : Surroundings) (arguments : List String) (other : Surroundings)
  (otherArguments : List String)

/-- Two runs end with the same status and write the same to the standard output. -/
structure SameReport : Prop where
  status : (run other otherArguments).status = (run surroundings arguments).status
  stdout : other.columns.getD 80 = surroundings.columns.getD 80 ∨ AsksForRecord arguments →
    (run other otherArguments).stdout = (run surroundings arguments).stdout
  /-- Where the widths differ, only the ends of lines may be elsewhere. -/
  content : Report.unspaced (run other otherArguments).stdout =
    Report.unspaced (run surroundings arguments).stdout

/-- Two runs end with the same status and write the same to both output streams. -/
structure SameRun : Prop extends SameReport surroundings arguments other otherArguments where
  stderr : (run other otherArguments).stderr = (run surroundings arguments).stderr

end

/-- The same happens, and the results are the same failure or reports that may end their lines
elsewhere. -/
inductive Reflowed (fixed : Prop) :
    List Event × Except Failure String → List Event × Except Failure String → Prop where
  | failure {events : List Event} {failure : Failure} :
    Reflowed fixed (events, .error failure) (events, .error failure)
  | report {events : List Event} {report other : String} (same : fixed → other = report)
    (content : Report.unspaced other = Report.unspaced report) :
    Reflowed fixed (events, .ok report) (events, .ok other)

theorem Reflowed.cons {fixed : Prop} {first other : List Event × Except Failure String}
    (event : Event) (reflowed : Reflowed fixed first other) :
    Reflowed fixed (event :: first.1, first.2) (event :: other.1, other.2) := by
  cases reflowed with
  | failure => exact .failure
  | report same content => exact .report same content

section

variable (surroundings : Surroundings) (columns : Option Nat) (request : Request)

/-- A text and the JSON form in the format of a request, for two widths. -/
theorem reflowed_formatted (events : List Event) (width other : Nat) {text : Nat → String}
    (json : Unit → String)
    (content : ∀ width other, Report.unspaced (text width) = Report.unspaced (text other)) :
    Reflowed (other = width ∨ request.format = some .json)
      (events, .ok (formatted request (fun _ => text width) json))
      (events, .ok (formatted request (fun _ => text other) json)) := by
  by_cases asked : request.format = some .json
  · rw [formatted_of_json asked, formatted_of_json asked]
    exact .report (fun _ => rfl) rfl
  · rw [formatted_of_text asked, formatted_of_text asked]
    refine .report ?_ (content other width)
    rintro (rfl | impossible)
    · rfl
    · contradiction

theorem reflowed_decode (settings : Settings) (text : String) :
    Reflowed (columns.getD 80 = surroundings.columns.getD 80 ∨ request.format = some .json)
      (decode surroundings request settings text)
      (decode { surroundings with columns } request settings text) := by
  simp only [decode]
  cases Decimal.ofText? text with
  | none => exact .failure
  | some number =>
    cases settings.encoder with
    | error error => exact .failure
    | ok encoder =>
      dsimp only
      cases encoder.decodeFormula number with
      | error error => exact .failure
      | ok formula =>
        exact reflowed_formatted request _ _ _ _ fun width other =>
          Report.unspaced_decodedText surroundings.color width other number formula

theorem reflowed_analyze (settings : Settings) (input : Input) :
    Reflowed (columns.getD 80 = surroundings.columns.getD 80 ∨ request.format = some .json)
      (analyze surroundings request settings input)
      (analyze { surroundings with columns } request settings input) := by
  simp only [analyze]
  cases Analyzer.ofSettings settings with
  | error error => exact .failure
  | ok analyzer =>
    dsimp only
    cases analyzer.run input.formula with
    | error error => exact .failure
    | ok analysis =>
      exact reflowed_formatted request _ _ _ _ fun width other =>
        Report.unspaced_analysisText surroundings.color width other analysis

theorem reflowed_execute :
    Reflowed (columns.getD 80 = surroundings.columns.getD 80 ∨ request.format = some .json)
      (execute surroundings request) (execute { surroundings with columns } request) := by
  have settings : { surroundings with columns }.settings request = surroundings.settings request :=
    rfl
  have input : { surroundings with columns }.input request = surroundings.input request := rfl
  simp only [execute, settings, input]
  cases surroundings.settings request with
  | error failure => exact .failure
  | ok settings =>
    apply Reflowed.cons
    cases request.decode with
    | some text => exact reflowed_decode surroundings columns request settings text
    | none =>
      cases surroundings.input request with
      | error failure => exact .failure
      | ok input => exact reflowed_analyze surroundings columns request settings input

end

theorem SameRun.of_eq {surroundings other : Surroundings} {arguments otherArguments : List String}
    (same : run other otherArguments = run surroundings arguments) :
    SameRun surroundings arguments other otherArguments :=
  ⟨⟨congrArg _ same, fun _ => congrArg _ same, by rw [same]⟩, congrArg _ same⟩

/-- A run in a terminal of another width ends in the same way and writes the same but for the ends of
lines. -/
theorem sameRun_columns (surroundings : Surroundings) (columns : Option Nat)
    (arguments : List String) :
    SameRun surroundings arguments { surroundings with columns } arguments := by
  cases read : Action.ofArguments? arguments with
  | none => exact .of_eq (by simp only [run, read])
  | some action =>
    cases action with
    | run request =>
      have reflowed := reflowed_execute surroundings columns request
      cases first : execute surroundings request with | mk events result =>
      cases second : execute { surroundings with columns } request with | mk events' result' =>
      rw [first, second] at reflowed
      cases reflowed with
      | failure => exact .of_eq (by simp only [run, read, first, second])
      | report same content =>
        refine ⟨⟨?_, ?_, ?_⟩, ?_⟩ <;> simp only [run, read, first, second]
        · rintro (widths | ⟨asking, found, json⟩)
          · exact same (.inl widths)
          · cases read.symm.trans found
            exact same (.inr json)
        · exact content
    | _ => exact .of_eq (by simp only [run, read])

section

variable {surroundings other : Surroundings} {arguments otherArguments : List String}
  (asks : AsksForRecord arguments → AsksForRecord otherArguments)

include asks

/-- Where two runs would write the same in the same terminal, they do so in their own terminals but
for the ends of lines. -/
theorem SameReport.of_columns
    (status : (run { other with columns := surroundings.columns } otherArguments).status =
      (run surroundings arguments).status)
    (stdout : (run { other with columns := surroundings.columns } otherArguments).stdout =
      (run surroundings arguments).stdout) :
    SameReport surroundings arguments other otherArguments := by
  obtain ⟨⟨status', stdout', content'⟩, -⟩ :=
    sameRun_columns { other with columns := surroundings.columns } other.columns otherArguments
  exact ⟨status'.trans status, fun same => (stdout' (same.imp_right asks)).trans stdout,
    content'.trans (congrArg Report.unspaced stdout)⟩

theorem SameRun.of_columns
    (same : run { other with columns := surroundings.columns } otherArguments =
      run surroundings arguments) : SameRun surroundings arguments other otherArguments := by
  have report : SameReport surroundings arguments other otherArguments :=
    .of_columns asks (congrArg _ same) (congrArg _ same)
  have stderr := (sameRun_columns { other with columns := surroundings.columns } other.columns
    otherArguments).stderr
  exact ⟨report, stderr.trans (congrArg _ same)⟩

end

end Arithmetization.Command
