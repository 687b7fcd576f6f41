/-! # Lines of equal width

A long run of digits is cut into lines; a text without characters is one empty line.
-/

namespace Arithmetization.Text

/-- Cuts a text into lines of `width + 1` characters, of which the last may be shorter. -/
def wrapAt (width : Nat) (text : List Char) : List (List Char) :=
  if text.drop (width + 1) = [] then [text]
  else text.take (width + 1) :: wrapAt width (text.drop (width + 1))
termination_by text.length
decreasing_by
  rename_i more
  have : text.length ≠ 0 := fun empty => more (by simp [List.length_eq_zero_iff.mp empty])
  simp only [List.length_drop]
  omega

/-- Cuts a text into lines of the given width; the width zero is taken as one. -/
def wrap (width : Nat) (text : List Char) : List (List Char) := wrapAt (width - 1) text

end Arithmetization.Text
