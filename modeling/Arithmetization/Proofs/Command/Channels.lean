import Arithmetization.Proofs.Command.Options

/-! # Input channels on a command line

Three options say where a formula comes from; the others have nothing to do with it. Arguments that
name none of the three are read in the same way whatever the three have been given, and change
nothing of it. So where two command lines end in the same way but for the channels, they still do so
with such arguments before.
-/

namespace Arithmetization.Command

/-- A way to give a formula, named for its option. -/
inductive Channel where
  | code
  | stdin
  | file
deriving DecidableEq, Repr

/-- What is given on each channel. -/
structure Channels where
  code : Option String := none
  stdin : Bool := false
  file : Option String := none
deriving DecidableEq, Repr

namespace Channels

/-- What is given on one channel alone. -/
def only (channel : Channel) (channels : Channels) : Channels :=
  match channel with
  | .code => { code := channels.code }
  | .stdin => { stdin := channels.stdin }
  | .file => { file := channels.file }

/-- The channel of highest priority that something is given on. -/
def first (channels : Channels) : Channel :=
  if channels.code.isSome then .code else if channels.stdin then .stdin else .file

end Channels

/-! ## Requests but for their channels -/

/-- What a request is given on each channel. -/
def Request.channels (request : Request) : Channels := ⟨request.code, request.stdin, request.file⟩

/-- Changes what a request is given on the channels. -/
def Request.rechannel (change : Channels → Channels) (request : Request) : Request :=
  { request with
    code := (change request.channels).code
    stdin := (change request.channels).stdin
    file := (change request.channels).file }

/-- Changes what an action is given on the channels. -/
def Action.rechannel (change : Channels → Channels) : Action → Action
  | run request => run (request.rechannel change)
  | other => other

/-- Changes what has been given on the channels so far. -/
def Progress.rechannel (change : Channels → Channels) : Progress → Progress
  | done action => done (action.rechannel change)
  | needsValue request option => needsValue (request.rechannel change) option

/-! ## Arguments that give no input -/

/-- The channel that an option gives input on. -/
def Name.channel? : Name → Option Channel
  | .value .code => some .code
  | .value .file => some .file
  | .flag .stdin => some .stdin
  | _ => none

/-- The options that an argument names. -/
def Argument.names : Argument → List Name
  | word => []
  | long name _ => (Name.ofLong? name).toList
  | short names => names.filterMap Name.ofShort?

/-- Whether none of some options gives input. -/
def Silent (names : List Name) : Prop := ∀ name ∈ names, name.channel? = none

instance : DecidablePred Silent := fun names =>
  inferInstanceAs (Decidable (∀ name ∈ names, name.channel? = none))

section

variable (change : Channels → Channels) (request : Request)

theorem assign?_rechannel {option : ValueOption} (silent : (Name.value option).channel? = none)
    (value : String) : (request.rechannel change).assign? option value =
      (request.assign? option value).map (Request.rechannel change) := by
  cases option with
  | code => contradiction
  | file => contradiction
  | _ =>
    simp only [Request.assign?, Option.map_map]
    rfl

theorem raise?_rechannel {flag : Flag} (silent : (Name.flag flag).channel? = none) :
    (request.rechannel change).raise? flag =
      (request.raise? flag).map (Action.rechannel change) := by
  cases flag with
  | stdin => contradiction
  | strict =>
    have same : (request.rechannel change).strict = request.strict := rfl
    rw [Request.raise?, Request.raise?, same]
    split <;> rfl
  | _ => rfl

/-- No short name stands for an option that takes a value other than input. -/
theorem ne_value_of_ofShort? {name : Char} {option : ValueOption}
    (silent : (Name.value option).channel? = none) :
    Name.ofShort? name ≠ some (.value option) := by
  intro named
  rw [Name.ofShort?.eq_def] at named
  split at named <;> cases named <;> contradiction

theorem readBundle?_rechannel {names : List Char}
    (silent : Silent (names.filterMap Name.ofShort?)) :
    readBundle? (request.rechannel change) names =
      (readBundle? request names).map (Progress.rechannel change) := by
  induction names generalizing request with
  | nil => rfl
  | cons name rest ih =>
    cases named : Name.ofShort? name with
    | none => simp only [readBundle?, named, Option.map_none]
    | some found =>
      rw [List.filterMap_cons_some named] at silent
      obtain ⟨own, others⟩ := List.forall_mem_cons.mp silent
      cases found with
      | value option => exact absurd named (ne_value_of_ofShort? own)
      | flag flag =>
        rw [readBundle?.eq_3 _ _ _ flag named, readBundle?.eq_3 _ _ _ flag named,
          raise?_rechannel change request own]
        cases request.raise? flag with
        | none => rfl
        | some action =>
          cases action with
          | run next => exact ih next others
          | _ => rfl

theorem readArgument?_rechannel {argument : Argument} (silent : Silent argument.names) :
    readArgument? (request.rechannel change) argument =
      (readArgument? request argument).map (Progress.rechannel change) := by
  cases argument with
  | word => rfl
  | short names => exact readBundle?_rechannel change request silent
  | long name value =>
    cases named : Name.ofLong? name with
    | none => simp only [readArgument?, readLong?, named, Option.map_none]
    | some found =>
      have own : found.channel? = none := silent found (by simp [Argument.names, named])
      cases found with
      | value option =>
        cases value with
        | none => simp only [readArgument?, readLong?, named]; rfl
        | some value =>
          simp only [readArgument?, readLong?, named, Progress.assign?,
            assign?_rechannel change request own, Option.map_map]
          rfl
      | flag flag =>
        cases value with
        | none =>
          simp only [readArgument?, readLong?, named, raise?_rechannel change request own,
            Option.map_map]
          rfl
        | some value => simp only [readArgument?, readLong?, named, Option.map_none]

end

theorem readBundle?_ne_needsValue (request next : Request) {names : List Char}
    (silent : Silent (names.filterMap Name.ofShort?)) (option : ValueOption) :
    readBundle? request names ≠ some (.needsValue next option) := by
  induction names generalizing request with
  | nil => nofun
  | cons name rest ih =>
    cases named : Name.ofShort? name with
    | none =>
      rw [readBundle?.eq_2 _ _ _ named]
      nofun
    | some found =>
      rw [List.filterMap_cons_some named] at silent
      obtain ⟨own, others⟩ := List.forall_mem_cons.mp silent
      cases found with
      | value option => exact absurd named (ne_value_of_ofShort? own)
      | flag flag =>
        rw [readBundle?.eq_3 _ _ _ flag named]
        cases request.raise? flag with
        | none => nofun
        | some action =>
          cases action with
          | run next => exact ih next others
          | _ => nofun

/-- An option that waits for a value gives no input if an argument that gives none names it. -/
theorem channel?_of_needsValue {request next : Request} {argument : Argument} {option : ValueOption}
    (silent : Silent argument.names)
    (waits : readArgument? request argument = some (.needsValue next option)) :
    (Name.value option).channel? = none := by
  cases argument with
  | word => contradiction
  | short names => exact absurd waits (readBundle?_ne_needsValue request next silent option)
  | long name value =>
    apply silent
    simp only [readArgument?, readLong?] at waits
    split at waits
    · contradiction
    · obtain ⟨action, _, waits⟩ := Option.map_eq_some_iff.mp waits
      contradiction
    · contradiction
    · next named =>
      cases waits
      exact Option.mem_toList.mpr named
    · obtain ⟨next, _, waits⟩ := Option.map_eq_some_iff.mp waits
      contradiction

/-! ## Command lines -/

/-- The arguments of a command line that give no input. -/
def GivesNoInput (argument : String) : Prop := Silent (Argument.ofString argument).names

instance : DecidablePred GivesNoInput := fun argument =>
  inferInstanceAs (Decidable (Silent (Argument.ofString argument).names))

section

variable {start otherStart change : Channels → Channels} {tail otherTail : List String}
  (ends : otherTail = [] ↔ tail = [])
  (reads : ∀ request : Request, readArguments? (request.rechannel otherStart) otherTail =
    (readArguments? (request.rechannel start) tail).map (Action.rechannel change))
  (waits : ∀ (request : Request) (option : ValueOption), (Name.value option).channel? = none →
    proceed? otherTail (.needsValue (request.rechannel otherStart) option) =
      (proceed? tail (.needsValue (request.rechannel start) option)).map (Action.rechannel change))

include ends reads waits

/-- Where two tails of a command line come to the same but for the channels, they still do so after
arguments that give no input. -/
theorem readArguments?_append {silent : List String}
    (all : ∀ argument ∈ silent, GivesNoInput argument) :
    (∀ request : Request, readArguments? (request.rechannel otherStart) (silent ++ otherTail) =
      (readArguments? (request.rechannel start) (silent ++ tail)).map (Action.rechannel change)) ∧
    ∀ (request : Request) (option : ValueOption), (Name.value option).channel? = none →
      proceed? (silent ++ otherTail) (.needsValue (request.rechannel otherStart) option) =
        (proceed? (silent ++ tail) (.needsValue (request.rechannel start) option)).map
          (Action.rechannel change) := by
  -- An option that waits takes the next argument, so both ways to go on are carried along.
  induction silent with
  | nil => exact ⟨reads, waits⟩
  | cons argument rest ih =>
    obtain ⟨own, others⟩ := List.forall_mem_cons.mp all
    obtain ⟨ihReads, ihWaits⟩ := ih others
    refine ⟨fun request => ?_, fun request option unrelated => ?_⟩
    · by_cases mark : argument = "--"
      · have lasts : rest ++ otherTail = [] ↔ rest ++ tail = [] := by
          rw [List.append_eq_nil_iff, List.append_eq_nil_iff, ends]
        simp only [List.cons_append, readArguments?, if_pos mark, lasts]
        split
        · next last =>
          obtain ⟨rfl, rfl⟩ := List.append_eq_nil_iff.mp last
          obtain rfl := ends.mpr rfl
          exact reads request
        · rfl
      · simp only [List.cons_append, readArguments?_cons mark, readArgument?_rechannel _ _ own]
        cases taken : readArgument? request (.ofString argument) with
        | none => rfl
        | some progress =>
          cases progress with
          | done action =>
            cases action with
            | run next => exact ihReads next
            | _ => rfl
          | needsValue next option =>
            exact ihWaits next option (channel?_of_needsValue own taken)
    · simp only [List.cons_append, proceed?, assign?_rechannel _ _ unrelated]
      split
      · cases request.assign? option argument with
        | none => rfl
        | some next => exact ihReads next
      · rfl

end

/-- Arguments that give no input are read in the same way whatever the channels have been given. -/
theorem readArguments?_rechannel (change : Channels → Channels) {silent : List String}
    (all : ∀ argument ∈ silent, GivesNoInput argument) (request : Request) :
    readArguments? (request.rechannel change) silent =
      (readArguments? request silent).map (Action.rechannel change) := by
  have same : readArguments? (request.rechannel change) (silent ++ []) =
      (readArguments? (request.rechannel id) (silent ++ [])).map (Action.rechannel change) :=
    (readArguments?_append Iff.rfl (fun _ => rfl) (fun _ _ _ => rfl) all).1 request
  rwa [List.append_nil] at same

end Arithmetization.Command
