import Arithmetization.Command.Arguments
import Arithmetization.Proofs.Decimal.Reading

/-! # How long options take their values

The arguments of a command line are taken one by one, and what each of them comes to says how to go
on. A long option takes the text after an equals sign or the next argument as its value. Both ways
give the option of a request the same value, and the decimals of a word are values that give a
capacity.
-/

namespace Arithmetization.Command

/-- The long name of an option that takes a value. -/
def ValueOption.longName : ValueOption → String
  | code => "code"
  | file => "file"
  | primes => "primes"
  | config => "config"
  | format => "format"
  | decode => "decode"

theorem ofLong?_longName (option : ValueOption) :
    Name.ofLong? option.longName = some (.value option) := by
  cases option <;> rfl

theorem equals_notMem_longName (option : ValueOption) : '=' ∉ option.longName.toList := by
  cases option <;> decide

theorem longName_ne_empty (option : ValueOption) : option.longName ≠ "" := by
  cases option <;> decide

/-! ## Arguments -/

namespace Argument

variable {name : String} (plain : '=' ∉ name.toList)

include plain

theorem ne_equals_of_mem : ∀ c ∈ name.toList, decide (c ≠ '=') = true := by
  intro c member
  rw [decide_eq_true_eq]
  rintro rfl
  exact plain member

theorem ofString_assigned (value : String) :
    ofString ("--" ++ name ++ "=" ++ value) = .long name (some value) := by
  have written : ("--" ++ name ++ "=" ++ value).toList =
      '-' :: '-' :: (name.toList ++ '=' :: value.toList) := by simp
  rw [ofString, written]
  simp only [List.takeWhile_append_of_pos (ne_equals_of_mem plain),
    List.dropWhile_append_of_pos (ne_equals_of_mem plain)]
  simp

theorem ofString_alone : ofString ("--" ++ name) = .long name none := by
  have written : ("--" ++ name).toList = '-' :: '-' :: (name.toList ++ []) := by simp
  rw [ofString, written]
  simp only [List.takeWhile_append_of_pos (ne_equals_of_mem plain),
    List.dropWhile_append_of_pos (ne_equals_of_mem plain)]
  simp

end Argument

/-- The shape of the mark before positional arguments, which is no option. -/
theorem ofString_mark : Argument.ofString "--" = .long "" none := by decide

theorem ne_mark_of_long {argument name : String} {value : Option String}
    (shape : Argument.ofString argument = .long name value) (named : name ≠ "") :
    argument ≠ "--" := by
  rintro rfl
  rw [ofString_mark] at shape
  injection shape with same
  exact named same.symm

/-! ## Command lines -/

/-- What becomes of the rest of a command line, given what its arguments so far come to. -/
def proceed? (rest : List String) : Progress → Option Action
  | .done (.run request) => readArguments? request rest
  | .done action => some action
  | .needsValue request option =>
    match rest with
    | [] => none
    | value :: rest =>
      if isValue value then (request.assign? option value).bind (readArguments? · rest) else none

theorem readArguments?_cons {argument : String} (notMark : argument ≠ "--") (request : Request)
    (rest : List String) : readArguments? request (argument :: rest) =
      (readArgument? request (.ofString argument)).bind (proceed? rest) := by
  rw [readArguments?, if_neg notMark]
  cases readArgument? request (.ofString argument) with
  | none => rfl
  | some progress =>
    cases progress with
    | done action => cases action <;> rfl
    | needsValue next option =>
      cases rest with
      | nil => rfl
      | cons value rest =>
        simp only [Option.bind_some, proceed?]
        cases next.assign? option value <;> rfl

section

variable (request : Request) (option : ValueOption) {value : String} (rest : List String)

theorem readArguments?_assigned (value : String) :
    readArguments? request (("--" ++ option.longName ++ "=" ++ value) :: rest) =
      (request.assign? option value).bind (readArguments? · rest) := by
  have shape := Argument.ofString_assigned (equals_notMem_longName option) value
  rw [readArguments?_cons (ne_mark_of_long shape (longName_ne_empty option)), shape]
  simp only [readArgument?, readLong?, ofLong?_longName, Progress.assign?]
  cases request.assign? option value <;> rfl

theorem readArguments?_separate (follows : isValue value = true) :
    readArguments? request (("--" ++ option.longName) :: value :: rest) =
      (request.assign? option value).bind (readArguments? · rest) := by
  have shape := Argument.ofString_alone (equals_notMem_longName option)
  rw [readArguments?_cons (ne_mark_of_long shape (longName_ne_empty option)), shape]
  simp only [readArgument?, readLong?, ofLong?_longName, Option.bind_some, proceed?, follows,
    if_true]

end

/-! ## Capacities -/

theorem isValue_text (n : Nat) : isValue (Decimal.text n) = true := by
  obtain ⟨c, rest, written, digit⟩ := Decimal.exists_digits_cons n
  have other : c ≠ '-' := Decimal.ne_of_isDigit digit rfl
  simp [isValue, Argument.ofString, Decimal.text, written, other]

theorem number?_text {n : Nat} (word : n ≤ Decimal.maxWord) :
    number? (Decimal.text n) = some n := by
  obtain ⟨c, rest, written, digit⟩ := Decimal.exists_digits_cons n
  have unsigned : c ≠ '+' := Decimal.ne_of_isDigit digit rfl
  have same : Decimal.value (c :: rest) = n := by
    rw [← written]
    exact Decimal.value_zeros_digits 0 n
  have others : ∀ d ∈ rest, d.isDigit := by
    intro d member
    apply Decimal.isDigit_of_mem_digits (n := n)
    rw [written]
    exact List.mem_cons_of_mem c member
  have plain : (Decimal.text n).toList = c :: rest := by
    rw [Decimal.text, String.toList_ofList, written]
  simp [number?, plain, unsigned, same, digit, word, List.all_eq_true.mpr others]

end Arithmetization.Command
