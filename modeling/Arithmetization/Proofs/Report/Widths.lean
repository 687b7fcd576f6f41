import Arithmetization.Proofs.Report.Contents

/-! # Reports of other widths

The width of a text report only says where the digits of its number are cut into lines. So reports of
two widths are the same but for spaces and line breaks.
-/

namespace Arithmetization.Report

/-- The characters of a text other than spaces and line feeds. -/
def unspaced (text : String) : List Char := text.toList.filter fun c => c ≠ ' ' ∧ c ≠ '\n'

theorem unspaced_append (first rest : String) :
    unspaced (first ++ rest) = unspaced first ++ unspaced rest := by
  rw [unspaced, String.toList_append, List.filter_append, ← unspaced, ← unspaced]

/-- The lines of a section have the characters of its texts. -/
theorem unspaced_indented (lines : List (List Char)) :
    unspaced (indented (lines.map String.ofList)) = unspaced (String.ofList lines.flatten) := by
  induction lines with
  | nil => rfl
  | cons line rest ih =>
    rw [List.map_cons, indented_cons, unspaced_append, ih, List.flatten_cons, String.ofList_append,
      unspaced_append]
    congr 1
    simp [unspaced, indented]

theorem ShowsNumber.unspaced_eq {width number : Nat} {text : String}
    (shown : ShowsNumber width number text) : unspaced text = unspaced (toString number) := by
  obtain ⟨wrapped⟩ := shown
  rw [unspaced_indented, wrapped.joined, String.ofList_toList]

section

variable (color : Bool) (width other : Nat)

/-- Lines that end in those of a number only depend on the width in where these are cut. -/
theorem unspaced_render_numberLines (front : List Line) (number : Nat) :
    unspaced (render color (front ++ numberLines width (Decimal.digits number))) =
      unspaced (render color (front ++ numberLines other (Decimal.digits number))) := by
  have digits (width : Nat) : unspaced (render color (numberLines width (Decimal.digits number))) =
      unspaced (toString number) :=
    (showsNumber_iff.mpr rfl : ShowsNumber width number _).unspaced_eq
  rw [render_append, render_append, unspaced_append, unspaced_append, digits, digits]

theorem unspaced_analysisText (analysis : Analysis) :
    unspaced (analysisText width color analysis) = unspaced (analysisText other color analysis) := by
  rw [analysisText, analysisText, analysisLines_eq, analysisLines_eq]
  exact unspaced_render_numberLines color width other _ _

theorem unspaced_decodedText (number : Nat) (formula : String) :
    unspaced (decodedText width color (Decimal.text number) formula) =
      unspaced (decodedText other color (Decimal.text number) formula) := by
  have lines (width : Nat) : decodedLines width (Decimal.text number) formula =
      [.heading "Decoded formula:", .detail formula.toList, .heading "From Gödel number:"] ++
        numberLines width (Decimal.digits number) := by
    simp [decodedLines, Decimal.text]
  rw [decodedText, decodedText, lines, lines]
  exact unspaced_render_numberLines color width other _ _

end

end Arithmetization.Report
