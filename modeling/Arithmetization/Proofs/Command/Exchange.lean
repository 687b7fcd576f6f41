import Arithmetization.Proofs.Command.Channels

/-! # Exchanging and dropping input

An argument that gives input by itself can be exchanged for one that gives input on another channel,
or dropped when other channels are of interest. What the command line comes to changes only in what
is given on the channels.
-/

namespace Arithmetization.Command

/-! ## Arguments that give input -/

/-- An argument by itself gives input on channels that have none yet. -/
structure Gives (argument : String) (channels : Channels) : Prop where
  notMark : argument ≠ "--"
  notValue : isValue argument = false
  taken : ∀ request : Request, readArgument? (request.rechannel fun _ => {}) (.ofString argument) =
    some (.done (.run (request.rechannel fun _ => channels)))

theorem gives_of_shape {argument name : String} {value : Option String} {channels : Channels}
    (shape : Argument.ofString argument = .long name value) (named : name ≠ "")
    (taken : ∀ request : Request, readLong? (request.rechannel fun _ => {}) name value =
      some (.done (.run (request.rechannel fun _ => channels)))) : Gives argument channels := by
  constructor
  case notMark => exact ne_mark_of_long shape named
  case notValue => simp [isValue, shape]
  case taken =>
    rw [shape]
    exact taken

theorem gives_code (text : String) : Gives ("--code=" ++ text) { code := some text } :=
  gives_of_shape (Argument.ofString_assigned (equals_notMem_longName .code) text) (by decide)
    fun _ => rfl

theorem gives_stdin : Gives "--stdin" { stdin := true } :=
  have shape : Argument.ofString "--stdin" = .long "stdin" none := by decide
  gives_of_shape shape (by decide) fun _ => rfl

theorem gives_file (name : String) : Gives ("--file=" ++ name) { file := some name } :=
  gives_of_shape (Argument.ofString_assigned (equals_notMem_longName .file) name) (by decide)
    fun _ => rfl

/-- An argument that gives input can be exchanged for another one: the command line comes to the
same action with the other input, or is refused as before. -/
theorem readArguments?_exchange {argument other : String} {channels otherChannels : Channels}
    (gives : Gives argument channels) (givesOther : Gives other otherChannels)
    {before after : List String} (silentBefore : ∀ argument ∈ before, GivesNoInput argument)
    (silentAfter : ∀ argument ∈ after, GivesNoInput argument) (request : Request) :
    readArguments? (request.rechannel fun _ => {}) (before ++ other :: after) =
      (readArguments? (request.rechannel fun _ => {}) (before ++ argument :: after)).map
        (Action.rechannel fun _ => otherChannels) := by
  refine (readArguments?_append (by simp) (fun request => ?_) (fun _ _ _ => ?_) silentBefore).1
    request
  · simp only [readArguments?_cons gives.notMark, readArguments?_cons givesOther.notMark,
      gives.taken, givesOther.taken, Option.bind_some, proceed?,
      readArguments?_rechannel _ silentAfter, Option.map_map]
    congr
    funext action
    cases action <;> rfl
  · simp only [proceed?, gives.notValue, givesOther.notValue]
    rfl

/-! ## Dropping channels -/

section

variable {request : Request} {channel : Channel}

theorem once?_eq_some_iff {place result : Option String} {value : String} :
    once? place (some value) = some result ↔ place = none ∧ result = some value := by
  cases place <;> simp [once?, eq_comm]

/-- An option that gives input on a channel sets it, and does nothing to the others. -/
theorem assign?_only {option : ValueOption} (gives : (Name.value option).channel? = some channel)
    {value : String} {next : Request} (taken : request.assign? option value = some next) :
    (request.rechannel (.only channel)).assign? option value =
        some (next.rechannel (.only channel)) ∧
      ∀ other ≠ channel, next.rechannel (.only other) = request.rechannel (.only other) := by
  cases option with
  | code | file =>
    obtain rfl := Option.some.inj gives
    obtain ⟨_, filled, rfl⟩ := Option.map_eq_some_iff.mp taken
    obtain ⟨unset, rfl⟩ := once?_eq_some_iff.mp filled
    refine ⟨Option.map_eq_some_iff.mpr ⟨_, once?_eq_some_iff.mpr ⟨unset, rfl⟩, rfl⟩, ?_⟩
    intro other different
    cases other <;> first | contradiction | rfl
  | _ => contradiction

theorem raise?_only {flag : Flag} (gives : (Name.flag flag).channel? = some channel)
    {action : Action} (taken : request.raise? flag = some action) :
    ∃ next, action = .run next ∧
      (request.rechannel (.only channel)).raise? flag =
        some (.run (next.rechannel (.only channel))) ∧
      ∀ other ≠ channel, next.rechannel (.only other) = request.rechannel (.only other) := by
  cases flag with
  | stdin =>
    obtain rfl : Channel.stdin = channel := Option.some.inj gives
    cases given : request.stdin with
    | true => simp [Request.raise?, given] at taken
    | false =>
      simp only [Request.raise?, given, Bool.false_eq_true, if_false, Option.some.injEq] at taken
      subst taken
      refine ⟨_, rfl, ?_, fun other different => ?_⟩
      · simp [Request.raise?, Request.rechannel, Request.channels, Channels.only, given]
      · cases other <;> first | contradiction | rfl
  | _ => contradiction

/-- The channel that an argument gives input on by itself. -/
def Argument.channel? : Argument → Option Channel
  | long name value =>
    match Name.ofLong? name, value with
    | some (.value option), some _ => (Name.value option).channel?
    | some (.flag flag), none => (Name.flag flag).channel?
    | _, _ => none
  | _ => none

theorem readArgument?_only {argument : Argument} (gives : argument.channel? = some channel)
    {progress : Progress} (taken : readArgument? request argument = some progress) :
    ∃ next, progress = .done (.run next) ∧
      readArgument? (request.rechannel (.only channel)) argument =
        some (.done (.run (next.rechannel (.only channel)))) ∧
      ∀ other ≠ channel, next.rechannel (.only other) = request.rechannel (.only other) := by
  cases argument with
  | word => contradiction
  | short names => contradiction
  | long name value =>
    rw [Argument.channel?.eq_def] at gives
    dsimp only at gives
    simp only [readArgument?, readLong?] at taken ⊢
    split at gives
    · next option text named =>
      simp only [named, Progress.assign?] at taken ⊢
      obtain ⟨next, assigned, rfl⟩ := Option.map_eq_some_iff.mp taken
      obtain ⟨alone, others⟩ := assign?_only gives assigned
      exact ⟨next, rfl, by rw [alone]; rfl, others⟩
    · next flag named =>
      simp only [named] at taken ⊢
      obtain ⟨action, raised, rfl⟩ := Option.map_eq_some_iff.mp taken
      obtain ⟨next, rfl, alone, others⟩ := raise?_only gives raised
      exact ⟨next, rfl, by rw [alone]; rfl, others⟩
    · contradiction

end

/-- An argument that gives no input gives none on any channel. -/
theorem channel?_eq_none {argument : Argument} (silent : Silent argument.names) :
    argument.channel? = none := by
  cases argument with
  | long name value =>
    rw [Argument.channel?.eq_def]
    dsimp only
    split
    · next named => exact silent _ (Option.mem_toList.mpr named)
    · next named => exact silent _ (Option.mem_toList.mpr named)
    · rfl
  | _ => rfl

/-- Whether an argument is kept when all channels but one are dropped. -/
def keeps (channel : Channel) (argument : String) : Bool :=
  (Argument.ofString argument).channel?.all (· = channel)

theorem keeps_of_givesNoInput (channel : Channel) {argument : String}
    (silent : GivesNoInput argument) : keeps channel argument = true := by
  rw [keeps, channel?_eq_none silent]
  rfl

theorem keeps_of_isValue (channel : Channel) {argument : String}
    (follows : isValue argument = true) : keeps channel argument = true := by
  rw [keeps, of_decide_eq_true follows]
  rfl

/-- An argument gives no input, or gives input on one channel and does nothing else. -/
def Separates (argument : String) : Prop :=
  GivesNoInput argument ∨ (Argument.ofString argument).channel?.isSome

instance : DecidablePred Separates := fun argument =>
  inferInstanceAs (Decidable (GivesNoInput argument ∨ _))

section

variable {channel : Channel} {rest : List String}
  (drops : ∀ request action, readArguments? request rest = some action →
    readArguments? (request.rechannel (.only channel)) (rest.filter (keeps channel)) =
      some (action.rechannel (.only channel)))

include drops

/-- An argument that gives input is kept with its channel or dropped without a trace. -/
theorem readArguments?_filter_cons {argument : String} {given : Channel} {request : Request}
    {action : Action} (mark : argument ≠ "--")
    (gives : (Argument.ofString argument).channel? = some given)
    (comes : readArguments? request (argument :: rest) = some action) :
    readArguments? (request.rechannel (.only channel))
        ((argument :: rest).filter (keeps channel)) =
      some (action.rechannel (.only channel)) := by
  rw [readArguments?_cons mark] at comes
  obtain ⟨progress, taken, proceeds⟩ := Option.bind_eq_some_iff.mp comes
  obtain ⟨next, rfl, alone, others⟩ := readArgument?_only gives taken
  have dropped := drops next action proceeds
  by_cases same : given = channel
  · subst same
    have kept : keeps given argument = true := by simp [keeps, gives]
    rw [List.filter_cons_of_pos kept, readArguments?_cons mark, alone]
    exact dropped
  · have absent : ¬ keeps channel argument = true := by simp [keeps, gives, same]
    rw [List.filter_cons_of_neg absent, ← others channel (Ne.symm same)]
    exact dropped

end

/-- Dropping all channels but one from an accepted command line leaves what it comes to as it is,
but for the channels that are dropped. -/
theorem readArguments?_filter (channel : Channel) {arguments : List String}
    (separate : ∀ argument ∈ arguments, Separates argument) :
    (∀ request action, readArguments? request arguments = some action →
      readArguments? (request.rechannel (.only channel)) (arguments.filter (keeps channel)) =
        some (action.rechannel (.only channel))) ∧
    ∀ request option action, (Name.value option).channel? = none →
      proceed? arguments (.needsValue request option) = some action →
      proceed? (arguments.filter (keeps channel))
          (.needsValue (request.rechannel (.only channel)) option) =
        some (action.rechannel (.only channel)) := by
  induction arguments with
  | nil =>
    refine ⟨fun request action comes => ?_, fun request option action _ comes => ?_⟩
    · obtain rfl := Option.some.inj comes
      rfl
    · contradiction
  | cons argument rest ih =>
    obtain ⟨own, others⟩ := List.forall_mem_cons.mp separate
    obtain ⟨ihReads, ihWaits⟩ := ih others
    refine ⟨fun request action comes => ?_, fun request option action unrelated comes => ?_⟩
    · by_cases mark : argument = "--"
      · subst mark
        rw [readArguments?, if_pos rfl] at comes
        split at comes
        · next last =>
          subst last
          obtain rfl := Option.some.inj comes
          rfl
        · contradiction
      · rcases own with silent | gives
        · rw [readArguments?_cons mark] at comes
          obtain ⟨progress, taken, proceeds⟩ := Option.bind_eq_some_iff.mp comes
          rw [List.filter_cons_of_pos (keeps_of_givesNoInput channel silent),
            readArguments?_cons mark, readArgument?_rechannel _ _ silent, taken, Option.map_some,
            Option.bind_some]
          cases progress with
          | done stage =>
            cases stage with
            | run next => exact ihReads next action proceeds
            | _ =>
              obtain rfl := Option.some.inj proceeds
              rfl
          | needsValue next option =>
            exact ihWaits next option action (channel?_of_needsValue silent taken) proceeds
        · obtain ⟨given, gives⟩ := Option.isSome_iff_exists.mp gives
          exact readArguments?_filter_cons ihReads mark gives comes
    · rw [proceed?] at comes
      split at comes
      · next follows =>
        obtain ⟨next, assigned, comes⟩ := Option.bind_eq_some_iff.mp comes
        rw [List.filter_cons_of_pos (keeps_of_isValue channel follows)]
        simp only [proceed?, follows, assign?_rechannel _ _ unrelated, assigned]
        exact ihReads next action comes
      · contradiction

theorem ofArguments?_filter (channel : Channel) {arguments : List String} {request : Request}
    (separate : ∀ argument ∈ arguments, Separates argument)
    (accepted : Action.ofArguments? arguments = some (.run request)) :
    Action.ofArguments? (arguments.filter (keeps channel)) =
      some (.run (request.rechannel (.only channel))) := by
  have blank : ({} : Request).rechannel (.only channel) = {} := by cases channel <;> rfl
  have dropped := (readArguments?_filter channel separate).1 {} _ accepted
  rwa [blank] at dropped

end Arithmetization.Command
