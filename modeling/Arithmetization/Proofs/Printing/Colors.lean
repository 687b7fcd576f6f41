import Arithmetization.Printing
import Arithmetization.Proofs.Terminal

/-! # Colors of printed expressions

Sent to a terminal, a printed expression is one signal after another for each of its pieces: a space
alone, and any other piece between the sequences that switch its style on and off. So the characters
that are visible are those of the text without colors, and each of them is displayed in the style of
its own piece only.
-/

namespace Arithmetization

open Terminal

namespace Piece

/-- The signals of a piece. -/
def signals (piece : Piece) : List Signal :=
  match piece.style? with
  | some style => style.painting [piece.char]
  | none => [.shown piece.char]

/-- The parameters that are on where a piece is displayed. -/
def settings (piece : Piece) : List (List Char) := piece.style?.elim [] Style.settings

theorem char_ne_escape (piece : Piece) : piece.char ≠ escape := by
  have symbols : ∀ s ∈ Symbol.all, s.char ≠ escape := by decide
  cases piece with
  | symbol s => exact symbols s s.mem_all
  | opening _ => exact symbols .opening (Symbol.mem_all _)
  | closing _ => exact symbols .closing (Symbol.mem_all _)
  | space => decide

theorem clear_char (piece : Piece) : escape ∉ [piece.char] :=
  List.not_mem_cons_of_ne_of_not_mem piece.char_ne_escape.symm List.not_mem_nil

theorem signals_painted (piece : Piece) (rest : List Char) :
    Terminal.signals (piece.painted ++ rest) = piece.signals ++ Terminal.signals rest := by
  rw [painted, signals]
  cases piece.style? with
  | some style => exact signals_paint style piece.clear_char rest
  | none => exact signals_append piece.clear_char

/-- Where nothing is on, a piece is displayed in its own style, and nothing is on after it. -/
theorem display_signals (piece : Piece) (rest : List Signal) :
    display [] (piece.signals ++ rest) = (piece.char, piece.settings) :: display [] rest := by
  rw [signals, settings]
  cases piece.style? with
  | some style => exact display_painting style [] [piece.char] rest
  | none => rfl

theorem signals_flatMap_painted (pieces : List Piece) (rest : List Char) :
    Terminal.signals (pieces.flatMap painted ++ rest) =
      pieces.flatMap signals ++ Terminal.signals rest := by
  induction pieces with
  | nil => rfl
  | cons piece pieces ih =>
    rw [List.flatMap_cons, List.flatMap_cons, List.append_assoc, signals_painted, ih,
      List.append_assoc]

theorem display_flatMap_signals (pieces : List Piece) (rest : List Signal) :
    display [] (pieces.flatMap signals ++ rest) =
      pieces.map (fun piece => (piece.char, piece.settings)) ++ display [] rest := by
  induction pieces with
  | nil => rfl
  | cons piece pieces ih =>
    rw [List.flatMap_cons, List.append_assoc, display_signals, ih]
    rfl

/-- Characters of pieces are shown as in a text without colors. -/
theorem visible_flatMap_painted (pieces : List Piece) (rest : List Char) :
    visible (pieces.flatMap painted ++ rest) = pieces.map char ++ visible rest := by
  rw [visible, signals_flatMap_painted, ← map_fst_display [], display_flatMap_signals,
    List.map_append, map_fst_display, visible, List.map_map]
  rfl

/-- A piece with a style is a symbol or a parenthesis. -/
theorem exists_symbol_of_style? {piece : Piece} {style : Style}
    (styled : piece.style? = some style) : ∃ s : Symbol, piece.char = s.char := by
  cases piece with
  | symbol s => exact ⟨s, rfl⟩
  | opening _ => exact ⟨.opening, rfl⟩
  | closing _ => exact ⟨.closing, rfl⟩
  | space => contradiction

theorem char_of_style?_eq_none {piece : Piece} (bare : piece.style? = none) : piece.char = ' ' := by
  cases piece with
  | space => rfl
  | _ => contradiction

end Piece

/-- Every style in these signals begins with a reset, is on for one symbol or parenthesis and ends
with a reset before anything else. Besides, there are only spaces. -/
inductive StyledSingly : List Signal → Prop where
  | nil : StyledSingly []
  | space {rest : List Signal} (next : StyledSingly rest) : StyledSingly (.shown ' ' :: rest)
  | symbol {settings : List (List Char)} (s : Symbol) {rest : List Signal} (on : settings ≠ [])
      (lasting : off ∉ settings) (next : StyledSingly rest) :
      StyledSingly
        (.control off :: (settings.map .control ++ .shown s.char :: .control off :: rest))

theorem StyledSingly.of_pieces (pieces : List Piece) :
    StyledSingly (pieces.flatMap Piece.signals) := by
  induction pieces with
  | nil => exact .nil
  | cons piece pieces ih =>
    rw [List.flatMap_cons, Piece.signals]
    cases styled : piece.style? with
    | some style =>
      obtain ⟨s, char_eq⟩ := Piece.exists_symbol_of_style? styled
      have single := StyledSingly.symbol s (settings_ne_nil style) (off_notMem_settings style) ih
      simpa [Style.painting, char_eq] using single
    | none =>
      rw [Piece.char_of_style?_eq_none styled]
      exact .space ih

end Arithmetization
