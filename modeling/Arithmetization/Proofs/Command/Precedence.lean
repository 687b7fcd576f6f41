import Arithmetization.Proofs.Command.Exchange
import Arithmetization.Proofs.Command.Sources
import Arithmetization.Proofs.Command.Widths

/-! # The channels of input agree

A formula is analyzed in the same way whichever channel it comes from, and only the channel of
highest priority is looked at. What the other channels hold, or whether they hold anything, makes no
difference. How a formula is given may decide which terminal is found, though, so the runs that are
compared may be in terminals of any widths.
-/

namespace Arithmetization.Command

open Surroundings

/-- Two surroundings differ at most in the standard input and in the terminal that is found. -/
structure SameSystem (surroundings other : Surroundings) : Prop where
  file : other.file = surroundings.file
  color : other.color = surroundings.color
  wording : other.wording = surroundings.wording

/-- Two surroundings are the same as far as a request looks at them, but for the terminal that is
found. -/
structure LooksSame (request : Request) (surroundings other : Surroundings) : Prop where
  color : other.color = surroundings.color
  wording : other.wording = surroundings.wording
  config : ∀ name, request.config = some name → other.file name = surroundings.file name
  stdin : request.channels.first = .stdin → other.stdin = surroundings.stdin
  file : request.channels.first = .file → ∀ name, request.file = some name →
    other.file name = surroundings.file name

section

variable {request : Request} {surroundings other : Surroundings}

theorem settings_rechannel (change : Channels → Channels)
    (wording : other.wording = surroundings.wording)
    (config : ∀ name, request.config = some name → other.file name = surroundings.file name) :
    other.settings (request.rechannel change) = surroundings.settings request := by
  cases given : request.config with
  | none => simp only [Surroundings.settings, given, Request.rechannel]
  | some name =>
    have same : other.fileText name = surroundings.fileText name := by
      rw [fileText, fileText, config name given]
    simp only [Surroundings.settings, given, Request.rechannel, same, wording]

/-- Only the channel of highest priority is looked at. -/
theorem input_only (same : LooksSame request surroundings other) :
    other.input (request.rechannel (.only request.channels.first)) =
      surroundings.input request := by
  cases code : request.code with
  | some text =>
    have first : request.channels.first = .code := by
      simp [Request.channels, Channels.first, code]
    rw [first]
    simp only [Surroundings.input, Request.rechannel, Request.channels, Channels.only, code]
  | none =>
    cases stdin : request.stdin with
    | true =>
      have first : request.channels.first = .stdin := by
        simp [Request.channels, Channels.first, code, stdin]
      rw [first]
      simp only [Surroundings.input, Request.rechannel, Request.channels, Channels.only, code,
        stdin, if_true, same.stdin first]
    | false =>
      have first : request.channels.first = .file := by
        simp [Request.channels, Channels.first, code, stdin]
      rw [first]
      simp only [Surroundings.input, Request.rechannel, Request.channels, Channels.only, code,
        stdin]
      cases file : request.file with
      | none => rfl
      | some name =>
        simp only [fileText, same.file first name file]
        rfl

variable (change : Channels → Channels) (settings : Settings)
  (color : other.color = surroundings.color) (columns : other.columns = surroundings.columns)

include color columns

theorem decode_rechannel (text : String) :
    decode other (request.rechannel change) settings text =
      decode surroundings request settings text := by
  have widths : other.width = surroundings.width := by rw [width, width, columns]
  simp only [decode, color, widths]
  rfl

theorem analyze_rechannel (input : Input) :
    analyze other (request.rechannel change) settings input =
      analyze surroundings request settings input := by
  have widths : other.width = surroundings.width := by rw [width, width, columns]
  simp only [analyze, color, widths]
  rfl

end

section

variable {request : Request} {surroundings other : Surroundings} {arguments alone : List String}

theorem execute_only (same : LooksSame request surroundings other)
    (columns : other.columns = surroundings.columns) :
    execute other (request.rechannel (.only request.channels.first)) =
      execute surroundings request := by
  simp only [execute, settings_rechannel _ same.wording same.config, input_only same,
    decode_rechannel _ _ same.color columns, analyze_rechannel _ _ same.color columns]
  rfl

/-- The result of a command line is that of the channel of highest priority alone. -/
theorem sameRun_only (accepted : Action.ofArguments? arguments = some (.run request))
    (acceptedAlone : Action.ofArguments? alone =
      some (.run (request.rechannel (.only request.channels.first))))
    (same : LooksSame request surroundings other) :
    SameRun surroundings arguments other alone := by
  refine .of_columns ?_ ?_
  · rintro ⟨_, found, json⟩
    cases accepted.symm.trans found
    exact ⟨_, acceptedAlone, json⟩
  · have same' : LooksSame request surroundings { other with columns := surroundings.columns } :=
      ⟨same.color, same.wording, same.config, same.stdin, same.file⟩
    simp only [run, accepted, acceptedAlone, execute_only same' rfl]
    rfl

end

/-! ## One text on every channel -/

theorem stripped_append {text lineBreak : String} (noFeed : text.toList.getLast? ≠ some '\n')
    (noReturn : text.toList.getLast? ≠ some '\r') (ends : lineBreak ∈ ["", "\n", "\r\n"]) :
    Stripped (text ++ lineBreak).toList text.toList := by
  rw [String.toList_append]
  simp only [List.mem_cons, List.not_mem_nil, or_false] at ends
  rcases ends with rfl | rfl | rfl
  · simpa using Stripped.unbroken noFeed
  · exact .lineFeed noReturn
  · exact .returnAndFeed

/-- The output of an analysis only depends on the formula, not on its name. -/
theorem toOption_analyze (surroundings : Surroundings) (request : Request) (settings : Settings)
    (name otherName formula : String) :
    (analyze surroundings request settings ⟨name, formula⟩).2.toOption =
      (analyze surroundings request settings ⟨otherName, formula⟩).2.toOption := by
  simp only [analyze]
  cases Analyzer.ofSettings settings with
  | error error => rfl
  | ok analyzer =>
    dsimp only
    cases analyzer.run formula with
    | error error => rfl
    | ok analysis => rfl

/-- Where the same formula is selected, the same report is written. -/
theorem toOption_execute {surroundings other : Surroundings} {request : Request}
    (change : Channels → Channels) {name otherName formula : String}
    (system : SameSystem surroundings other) (columns : other.columns = surroundings.columns)
    (selects : Selects surroundings request ⟨name, formula⟩)
    (selectsOther : Selects other (request.rechannel change) ⟨otherName, formula⟩) :
    (execute other (request.rechannel change)).2.toOption =
      (execute surroundings request).2.toOption := by
  have settings : other.settings (request.rechannel change) = surroundings.settings request :=
    settings_rechannel change system.wording fun name _ => congrFun system.file name
  simp only [execute, settings, input_of_selects selects, input_of_selects selectsOther,
    decode_rechannel change _ system.color columns, analyze_rechannel change _ system.color columns]
  cases surroundings.settings request with
  | error failure => rfl
  | ok settings =>
    have decodes : (request.rechannel change).decode = request.decode := rfl
    cases asked : request.decode with
    | some text => simp only [decodes, asked]
    | none =>
      simp only [decodes, asked]
      exact toOption_analyze surroundings request settings otherName name formula

/-- The status and the output only tell whether there is a report and which. -/
theorem report_run (surroundings : Surroundings) {request : Request} {arguments : List String}
    (accepted : Action.ofArguments? arguments = some (.run request)) :
    (run surroundings arguments).status =
        (if (execute surroundings request).2.toOption.isSome then 0 else 1) ∧
      (run surroundings arguments).stdout =
        (execute surroundings request).2.toOption.getD "" := by
  simp only [run, accepted]
  cases (execute surroundings request).2 with
  | ok report => exact ⟨rfl, rfl⟩
  | error failure => exact ⟨rfl, rfl⟩

theorem sameReport_of_selects {surroundings other : Surroundings} {request : Request}
    {change : Channels → Channels} {arguments otherArguments : List String}
    {name otherName formula : String}
    (accepted : Action.ofArguments? arguments = some (.run request))
    (acceptedOther : Action.ofArguments? otherArguments = some (.run (request.rechannel change)))
    (system : SameSystem surroundings other)
    (selects : Selects surroundings request ⟨name, formula⟩)
    (selectsOther : ∀ columns, Selects { other with columns } (request.rechannel change)
      ⟨otherName, formula⟩) :
    SameReport surroundings arguments other otherArguments := by
  have system' : SameSystem surroundings { other with columns := surroundings.columns } :=
    ⟨system.file, system.color, system.wording⟩
  have same := toOption_execute change system' rfl selects (selectsOther _)
  obtain ⟨status, stdout⟩ := report_run surroundings accepted
  obtain ⟨statusOther, stdoutOther⟩ :=
    report_run { other with columns := surroundings.columns } acceptedOther
  refine .of_columns ?_ ?_ ?_
  · rintro ⟨_, found, json⟩
    cases accepted.symm.trans found
    exact ⟨_, acceptedOther, json⟩
  · rw [statusOther, status, same]
  · rw [stdoutOther, stdout, same]

section

variable {surroundings other : Surroundings} {before after : List String}
  (silentBefore : ∀ argument ∈ before, GivesNoInput argument)
  (silentAfter : ∀ argument ∈ after, GivesNoInput argument)

include silentBefore silentAfter

/-- Exchanging the option for another way to give the same formula keeps the report. -/
theorem sameReport_exchange {text otherName argument : String} {channels : Channels}
    (system : SameSystem surroundings other) (gives : Gives argument channels)
    (selects : ∀ columns request, Selects { other with columns }
      (Request.rechannel (fun _ => channels) request) ⟨otherName, text⟩) :
    SameReport surroundings (before ++ ("--code=" ++ text) :: after) other
      (before ++ argument :: after) := by
  have exchanged {argument : String} {channels : Channels} (gives : Gives argument channels) :
      Action.ofArguments? (before ++ argument :: after) =
        (Action.ofArguments? (before ++ ("--code=" ++ text) :: after)).map
          (Action.rechannel fun _ => channels) :=
    readArguments?_exchange (gives_code text) gives silentBefore silentAfter {}
  have own := exchanged (gives_code text)
  have readOther := exchanged gives
  cases read : Action.ofArguments? (before ++ ("--code=" ++ text) :: after) with
  | none =>
    rw [read] at readOther
    constructor <;> simp [run, read, readOther]
  | some action =>
    rw [read] at own readOther
    cases action with
    | run request =>
      have same : request = request.rechannel fun _ => { code := some text } := by
        injection Option.some.inj own
      have given : request.code = some text := by rw [same]; rfl
      exact sameReport_of_selects read readOther system (.code given) fun columns =>
        selects columns request
    | _ => constructor <;> simp [run, read, readOther, Action.rechannel, system.wording]

end

end Arithmetization.Command
