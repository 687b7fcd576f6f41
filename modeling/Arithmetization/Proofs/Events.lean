import Arithmetization.Event
import Arithmetization.Proofs.Analysis.Outcome
import Arithmetization.Proofs.Construction.PostOrder

/-! # Records of events

A record is a line with the level, the part of the program that reports and the wording of an event.
The ten forms of records are spelled out, each with the verbosity from which on it is shown; there
is none for warnings, so nothing is shown unless more detail is asked for. A record of a step has the
words that the table of steps has for some node.
-/

namespace Arithmetization

/-- A record that is shown from a verbosity on. -/
inductive IsRecord : Nat → String → Prop where
  | configured {capacity : Nat} {strict : Bool} : IsRecord 2
      s!"DEBUG [hygodel] Using GodelConfig \x7b prime_capacity: {capacity}, strict: {strict} \x7d\n"
  | tableBuilt {count : Nat} : IsRecord 3
      s!"TRACE [hygodel::encoding::primes] Built prime table of {count} entries\n"
  | encoded {length bits : Nat} : IsRecord 2
      (s!"DEBUG [hygodel::encoding] Encoded {length} characters into a Gödel number of " ++
        s!"{bits} bits\n")
  | decoded {positions : Nat} : IsRecord 2
      s!"DEBUG [hygodel::encoding] Decoded Gödel number into {positions} positions\n"
  | tokenized {length symbols : Nat} : IsRecord 3
      s!"TRACE [hygodel::lexer] Tokenized {length} characters into {symbols} symbols\n"
  | parsed {consumed symbols nodes : Nat} : IsRecord 2
      (s!"DEBUG [hygodel::parser] Parsed {consumed} of {symbols} tokens into a tree of " ++
        s!"{nodes} nodes\n")
  | rejected : IsRecord 2
      "DEBUG [hygodel::parser] Strict parse rejected the formula with 1 errors\n"
  | stepEmitted {k : Nat} {node : Expression} {inputs : List Nat} {step : Step}
      (tabled : step.IsFor k node inputs) : IsRecord 3
        s!"TRACE [hygodel::steps] Emitted step {step.label} ({step.description})\n"
  | constructed {steps : Nat} : IsRecord 2
      s!"DEBUG [hygodel::steps] Built {steps} construction steps\n"
  | analyzed {symbols steps digits : Nat} : IsRecord 1
      (s!"INFO  [hygodel::pipeline] Analyzed formula of {symbols} tokens: {steps} steps, " ++
        s!"Gödel number of {digits} digits\n")

/-- A text has nothing but records that a verbosity shows. -/
inductive AreRecords (verbosity : Nat) : String → Prop where
  | lines {lines : List String}
    (all : ∀ line ∈ lines, ∃ least ≤ verbosity, IsRecord least line) :
    AreRecords verbosity (String.join lines)

/-- Without any verbosity there are no records. -/
theorem AreRecords.eq_empty {records : String} (shown : AreRecords 0 records) : records = "" := by
  obtain ⟨all⟩ := shown
  rename_i lines
  cases lines with
  | nil => rfl
  | cons line lines =>
    obtain ⟨least, none, record⟩ := all line List.mem_cons_self
    obtain rfl := Nat.le_zero.mp none
    cases record

/-! ## Events as they are recorded -/

/-- An event has a record; the step that it is about, if there is one, is that of a node. -/
def Event.IsTabled : Event → Prop
  | stepEmitted step => ∃ k node inputs, step.IsFor k node inputs
  | _ => True

theorem IsRecord.of_toList {least : Nat} {line record : String} (recorded : IsRecord least record)
    (same : line.toList = record.toList) : IsRecord least line :=
  String.toList_inj.mp same ▸ recorded

theorem isRecord_line {event : Event} (tabled : event.IsTabled) :
    IsRecord event.level.detail event.line := by
  have debug : Level.debug.column = "DEBUG" := by decide
  have info : Level.info.column = "INFO " := by decide
  have trace : Level.trace.column = "TRACE" := by decide
  unfold Event.line Event.message Event.source Event.level
  cases event with
  | configured settings =>
    refine (@IsRecord.configured settings.primeCapacity settings.strict).of_toList ?_
    unfold Settings.line
    have words : toString false = "false" ∧ toString true = "true" := ⟨rfl, rfl⟩
    cases mode : settings.strict <;> simp [debug, Decimal.text_eq_toString, mode, words]
  | tableBuilt count =>
    refine (@IsRecord.tableBuilt count).of_toList ?_
    simp [trace, Decimal.text_eq_toString]
  | encoded length number =>
    refine (@IsRecord.encoded length (Encoding.bitCount number)).of_toList ?_
    simp [debug, Decimal.text_eq_toString]
  | decoded positions =>
    refine (@IsRecord.decoded positions).of_toList ?_
    simp [debug, Decimal.text_eq_toString]
  | tokenized length symbols =>
    refine (@IsRecord.tokenized length symbols).of_toList ?_
    simp [trace, Decimal.text_eq_toString]
  | parsed consumed symbols nodes =>
    refine (@IsRecord.parsed consumed symbols nodes).of_toList ?_
    simp [debug, Decimal.text_eq_toString]
  | rejected =>
    refine IsRecord.rejected.of_toList ?_
    simp [debug]
  | stepEmitted step =>
    obtain ⟨k, node, inputs, tabled⟩ := tabled
    refine (IsRecord.stepEmitted tabled).of_toList ?_
    simp [trace, Step.line]
  | constructed steps =>
    refine (@IsRecord.constructed steps).of_toList ?_
    simp [debug, Decimal.text_eq_toString]
  | analyzed symbols steps number =>
    refine (@IsRecord.analyzed symbols steps (Decimal.digits number).length).of_toList ?_
    simp [info, Decimal.text_eq_toString]

/-- What a verbosity shows has a level of no more detail. -/
theorem Event.detail_le_of_isShown {event : Event} {verbosity : Nat}
    (shown : event.isShown (.ofVerbosity verbosity)) : event.level.detail ≤ verbosity := by
  have most : (Level.ofVerbosity verbosity).detail ≤ verbosity :=
    match verbosity with
    | 0 => Nat.le_refl 0
    | 1 => Nat.le_refl 1
    | 2 => Nat.le_refl 2
    | least + 3 => Nat.le_add_left 3 least
  exact (of_decide_eq_true shown).trans most

theorem areRecords_of_isTabled {events : List Event} {verbosity : Nat}
    (tabled : ∀ event ∈ events, event.IsTabled) : AreRecords verbosity
      (String.join ((events.filter (·.isShown (.ofVerbosity verbosity))).map Event.line)) := by
  refine .lines ?_
  simp only [List.forall_mem_map, List.mem_filter]
  rintro event ⟨member, shown⟩
  exact ⟨_, event.detail_le_of_isShown shown, isRecord_line (tabled event member)⟩

/-! ## Events of analyses and decodings -/

theorem Expression.isTabled_of_mem_construct {e : Expression} {step : Step}
    (member : step ∈ e.construct) : (Event.stepEmitted step).IsTabled := by
  rw [construct_eq_stepsFrom, stepsFrom_eq_map] at member
  obtain ⟨place, inside, rfl⟩ := List.mem_map.mp member
  obtain ⟨node, found⟩ := mem_postorder_iff.mp inside
  rw [stepAt_eq found]
  exact ⟨_, node, _, Step.isFor_ofNode _ node _⟩

theorem Analyzer.isTabled_of_mem_events (analyzer : Analyzer) (formula : String) :
    ∀ event ∈ analyzer.events formula, event.IsTabled := by
  have analyzed {analysis : Analysis} (found : analyzer.run formula = .ok analysis) :
      ∀ event ∈ analysis.events, event.IsTabled := by
    obtain ⟨encoding, root, consumed, -, -, rfl⟩ := run_eq_ok_iff.mp found
    rw [Analysis.events, List.forall_mem_append, List.forall_mem_map]
    refine ⟨fun step member => root.isTabled_of_mem_construct member, ?_⟩
    simp [Event.IsTabled]
  rw [events]
  split
  · nofun
  · split
    · simp [Event.IsTabled]
    · next analysis found =>
      split <;> simpa [Event.IsTabled] using analyzed found

theorem Encoder.isTabled_of_mem_events (encoder : Encoder) (number : Nat) :
    ∀ event ∈ encoder.events number, event.IsTabled := by
  rw [events]
  split <;> simp [Event.IsTabled]

end Arithmetization
