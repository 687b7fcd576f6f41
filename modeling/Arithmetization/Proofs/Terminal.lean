import Arithmetization.Proofs.Decimal.Reading
import Arithmetization.Terminal

/-! # What a terminal shows

A terminal takes the control sequences out of the text that it receives and shows the other
characters with the styles that are on. `strip` keeps the characters alone; `display` pairs each of
them with the parameters that were received since the last reset. A painted stretch of text is shown
in its own style and leaves nothing on.
-/

namespace Arithmetization.Terminal

/-! ## Signals -/

/-- What a terminal receives: a control sequence or a character to show. -/
inductive Signal where
  | control (parameters : List Char)
  | shown (c : Char)
deriving DecidableEq, Repr

/-- The character that a signal shows. -/
def Signal.char? : Signal → Option Char
  | control _ => none
  | shown c => some c

/-- The signals of a text. A control sequence goes on to the next `m`; where none follows, its
beginning is shown. -/
def signals : List Char → List Signal
  | [] => []
  | c :: rest =>
    if c = escape ∧ rest.head? = some '[' ∧ 'm' ∈ rest then
      .control (rest.tail.takeWhile (· ≠ 'm')) :: signals (rest.dropWhile (· ≠ 'm')).tail
    else .shown c :: signals rest
termination_by text => text.length
decreasing_by
  · have := (List.dropWhile_sublist (l := rest) fun c => decide (c ≠ 'm')).length_le
    simp only [List.length_tail, List.length_cons]
    omega
  · simp

/-- The characters of a text that are shown. -/
def visible (text : List Char) : List Char := (signals text).filterMap Signal.char?

/-- A text without its control sequences. -/
def strip (text : String) : String := String.ofList (visible text.toList)

/-- The parameters of the reset sequence. -/
def off : List Char := ['0']

/-- The characters that signals show, each with the parameters that are on. -/
def display (on : List (List Char)) : List Signal → List (Char × List (List Char))
  | [] => []
  | .shown c :: rest => (c, on) :: display on rest
  | .control parameters :: rest => display (if parameters = off then [] else on ++ [parameters]) rest

/-- The parameters of the sequences that switch a style on, after the reset. -/
def Style.settings (style : Style) : List (List Char) :=
  (if style.bold then [['1']] else []) ++ (if style.dimmed then [['2']] else []) ++
    [style.colorParameters]

/-- The signals of a text in a style. -/
def Style.painting (style : Style) (text : List Char) : List Signal :=
  .control off :: (style.settings.map .control ++ (text.map .shown ++ [.control off]))

variable {text parameters rest : List Char}

theorem signals_cons {c : Char} (other : c ≠ escape) :
    signals (c :: rest) = .shown c :: signals rest := by
  rw [signals, if_neg fun begins => other begins.1]

/-- A text without escape characters is shown as it is. -/
theorem signals_append (clear : escape ∉ text) :
    signals (text ++ rest) = text.map .shown ++ signals rest := by
  induction text with
  | nil => rfl
  | cons c text ih =>
    obtain ⟨other, clear⟩ := List.ne_and_not_mem_of_not_mem_cons clear
    rw [List.cons_append, signals_cons other.symm, ih clear]
    rfl

theorem signals_control (closed : 'm' ∉ parameters) :
    signals (control parameters ++ rest) = .control parameters :: signals rest := by
  have ends : ∀ c ∈ parameters, decide (c ≠ 'm') = true := by
    intro c member
    have : c ≠ 'm' := fun same => closed (same ▸ member)
    simpa using this
  have begins : escape = escape ∧ ('[' :: (parameters ++ 'm' :: rest)).head? = some '[' ∧
      'm' ∈ '[' :: (parameters ++ 'm' :: rest) := by simp
  have shape : control parameters ++ rest = escape :: '[' :: (parameters ++ 'm' :: rest) := by
    simp [control]
  rw [shape, signals, if_pos begins, List.tail_cons, List.takeWhile_append_of_pos ends,
    List.dropWhile_cons_of_pos (by decide), List.dropWhile_append_of_pos ends]
  simp

/-! ## Painted text -/

theorem closed_colorParameters (style : Style) : 'm' ∉ style.colorParameters := by
  rw [Style.colorParameters]
  split <;> simp [Decimal.notMem_digits]

theorem closed_of_mem_settings {style : Style} (member : parameters ∈ style.settings) :
    'm' ∉ parameters := by
  rw [Style.settings, List.mem_append, List.mem_append, List.mem_singleton] at member
  rcases member with (member | member) | rfl
  · split at member <;> simp_all
  · split at member <;> simp_all
  · exact closed_colorParameters style

theorem settings_ne_nil (style : Style) : style.settings ≠ [] := by
  simp [Style.settings]

/-- No style is switched on by a reset. -/
theorem off_notMem_settings (style : Style) : off ∉ style.settings := by
  have color : style.colorParameters ≠ off := by
    rw [Style.colorParameters, off]
    split <;> simp
  intro member
  rw [Style.settings, List.mem_append, List.mem_append, List.mem_singleton] at member
  rcases member with (member | member) | same
  · split at member <;> simp_all [off]
  · split at member <;> simp_all [off]
  · exact color same.symm

theorem signals_controls {sequences : List (List Char)}
    (closed : ∀ parameters ∈ sequences, 'm' ∉ parameters) (rest : List Char) :
    signals (sequences.flatMap control ++ rest) = sequences.map .control ++ signals rest := by
  induction sequences with
  | nil => rfl
  | cons parameters sequences ih =>
    obtain ⟨first, closed⟩ := List.forall_mem_cons.mp closed
    rw [List.flatMap_cons, List.append_assoc, signals_control first, ih closed]
    rfl

theorem start_eq (style : Style) :
    style.start = control off ++ style.settings.flatMap control := by
  cases bold : style.bold <;> cases dimmed : style.dimmed <;>
    simp [Style.start, Style.settings, reset, off, bold, dimmed]

theorem signals_paint (style : Style) (clear : escape ∉ text) (rest : List Char) :
    signals (style.paint text ++ rest) = style.painting text ++ signals rest := by
  have closed : 'm' ∉ off := by decide
  have reset_eq : reset = control off := rfl
  rw [Style.paint, start_eq, reset_eq]
  simp only [List.append_assoc]
  rw [signals_control closed, signals_controls fun _ => closed_of_mem_settings,
    signals_append clear, signals_control closed]
  simp [Style.painting]

/-! ## What is displayed -/

theorem display_controls {sequences : List (List Char)} (lasting : off ∉ sequences)
    (on : List (List Char)) (rest : List Signal) :
    display on (sequences.map .control ++ rest) = display (on ++ sequences) rest := by
  induction sequences generalizing on with
  | nil => rw [List.append_nil]; rfl
  | cons parameters sequences ih =>
    obtain ⟨other, lasting⟩ := List.ne_and_not_mem_of_not_mem_cons lasting
    rw [List.map_cons, List.cons_append, display, if_neg other.symm, ih lasting,
      List.append_assoc]
    rfl

theorem display_shown (on : List (List Char)) (text : List Char) (rest : List Signal) :
    display on (text.map .shown ++ rest) = text.map (·, on) ++ display on rest := by
  induction text with
  | nil => rfl
  | cons c text ih =>
    rw [List.map_cons, List.cons_append, display, ih]
    rfl

/-- A painted text is shown in its style alone, whatever was on before, and leaves nothing on. -/
theorem display_painting (style : Style) (on : List (List Char)) (text : List Char)
    (rest : List Signal) :
    display on (style.painting text ++ rest) = text.map (·, style.settings) ++ display [] rest := by
  simp only [Style.painting, List.cons_append, List.append_assoc, display, if_pos]
  rw [display_controls (off_notMem_settings style), display_shown, List.nil_append, List.nil_append]
  simp [display]

/-! ## What is visible -/

theorem visible_nil : visible [] = [] := by
  rw [visible, signals]
  rfl

/-- Styles do not matter for the characters that are shown. -/
theorem map_fst_display (on : List (List Char)) (received : List Signal) :
    (display on received).map Prod.fst = received.filterMap Signal.char? := by
  induction received generalizing on with
  | nil => rfl
  | cons signal received ih =>
    cases signal with
    | control parameters => exact ih _
    | shown c => exact congrArg (c :: ·) (ih on)

theorem visible_append (clear : escape ∉ text) (rest : List Char) :
    visible (text ++ rest) = text ++ visible rest := by
  rw [visible, signals_append clear, ← map_fst_display [], display_shown, List.map_append,
    map_fst_display, visible, List.map_map]
  simp [Function.comp_def]

theorem visible_paint (style : Style) (clear : escape ∉ text) (rest : List Char) :
    visible (style.paint text ++ rest) = text ++ visible rest := by
  rw [visible, signals_paint style clear, ← map_fst_display [], display_painting, List.map_append,
    map_fst_display, visible, List.map_map]
  simp [Function.comp_def]

end Arithmetization.Terminal
