import Arithmetization.Encoding
import Arithmetization.Proofs.Scanning
import Mathlib.Data.Nat.Factorization.Basic

/-! # Numbers and the symbols of their exponents

Over distinct primes, the number of a list of symbols determines the list up to places without a
symbol at its end. `readExponents_eq_ok_iff` says that reading the exponents inverts `numberOf`:
it succeeds exactly on the numbers of lists that fit into the table, and finds the list that does
not end in an empty place.
-/

namespace Arithmetization

/-- The code of a place, `0` where there is no symbol. -/
def Symbol.codeOf (place : Option Symbol) : Nat := place.elim 0 code

namespace Symbol

theorem codeOf_le (place : Option Symbol) : codeOf place ≤ count := by
  cases place with
  | none => exact Nat.zero_le count
  | some symbol => exact (code_bounds symbol).2

theorem ofCode?_codeOf (place : Option Symbol) : ofCode? (codeOf place) = place := by
  cases place with
  | none => decide
  | some symbol => exact ofCode?_code symbol

theorem codeOf_ofCode? {code : Nat} (bound : code ≤ count) : codeOf (ofCode? code) = code := by
  have table : ∀ n ∈ List.range (count + 1), codeOf (ofCode? n) = n := by decide
  exact table code (List.mem_range.mpr (Nat.lt_succ_of_le bound))

theorem codeOf_eq_zero_iff {place : Option Symbol} : codeOf place = 0 ↔ place = none := by
  cases place with
  | none => simp [codeOf]
  | some symbol =>
    have := (code_bounds symbol).1
    simp only [codeOf, Option.elim_some, reduceCtorEq, iff_false]
    omega

end Symbol

namespace Encoder

/-- The product of the primes raised to the codes of the places that they stand at. -/
def numberOf : (primes : List Nat) → (places : List (Option Symbol)) → Nat
  | prime :: primes, place :: places => prime ^ Symbol.codeOf place * numberOf primes places
  | _, _ => 1

@[simp] theorem numberOf_nil (primes : List Nat) : numberOf primes [] = 1 := by
  cases primes <;> rfl

@[simp] theorem numberOf_cons (prime : Nat) (primes : List Nat) (place : Option Symbol)
    (places : List (Option Symbol)) :
    numberOf (prime :: primes) (place :: places) =
      prime ^ Symbol.codeOf place * numberOf primes places := rfl

/-- The number of an encoded text. -/
theorem number_ofItems (primes : List Nat) (text : List Char) :
    (Encoding.ofItems (List.zipWith Item.ofChar text primes)).number =
      numberOf primes (text.map Symbol.ofChar?) := by
  induction text generalizing primes with
  | nil => simp [Encoding.ofItems]
  | cons c text ih =>
    cases primes with
    | nil => rfl
    | cons prime primes =>
      rw [List.map_cons, numberOf_cons, ← ih primes]
      rfl

theorem numberOf_concat_none (primes : List Nat) (places : List (Option Symbol)) :
    numberOf primes (places ++ [none]) = numberOf primes places := by
  induction places generalizing primes with
  | nil => cases primes <;> simp [numberOf, Symbol.codeOf]
  | cons place places ih =>
    cases primes with
    | nil => rfl
    | cons prime primes => simp [ih]

/-- Empty places at the end of a list do not show in its number. -/
theorem numberOf_rdropWhile (primes : List Nat) (places : List (Option Symbol)) :
    numberOf primes (places.rdropWhile Option.isNone) = numberOf primes places :=
  eq_of_rdropWhile (numberOf primes) (numberOf_concat_none primes) places

/-- A list of places that does not end in an empty place. -/
def Trimmed (places : List (Option Symbol)) : Prop := places.getLast? ≠ some none

theorem trimmed_rdropWhile (places : List (Option Symbol)) :
    Trimmed (places.rdropWhile Option.isNone) := by
  intro last
  obtain ⟨before, split⟩ := List.getLast?_eq_some_iff.mp last
  have nonempty : places.rdropWhile Option.isNone ≠ [] := by simp [split]
  apply List.rdropWhile_last_not _ _ nonempty
  simp [split]

theorem trimmed_cons_iff {place : Option Symbol} {places : List (Option Symbol)} :
    Trimmed (place :: places) ↔ Trimmed places ∧ (places = [] → place ≠ none) := by
  cases places with
  | nil => simp [Trimmed]
  | cons next places => simp [Trimmed]

/-! ## One prime -/

theorem multiplicity_eq_min {prime n : Nat} (isPrime : prime.Prime) (positive : n ≠ 0)
    (limit : Nat) : multiplicity prime limit n = min limit (n.factorization prime) := by
  induction limit generalizing n with
  | zero => simp [multiplicity]
  | succ limit ih =>
    rw [multiplicity]
    by_cases divides : prime ∣ n
    · obtain ⟨m, rfl⟩ := divides
      have positive' : m ≠ 0 := right_ne_zero_of_mul positive
      have once : (prime * m).factorization prime = m.factorization prime + 1 := by
        rw [Nat.factorization_mul isPrime.ne_zero positive', Finsupp.add_apply,
          isPrime.factorization_self, Nat.add_comm]
      rw [if_pos (Nat.mul_mod_right prime m), Nat.mul_div_cancel_left m isPrime.pos, ih positive',
        once, Nat.succ_min_succ]
    · rw [if_neg (fun zero => divides (Nat.dvd_of_mod_eq_zero zero)),
        Nat.factorization_eq_zero_of_not_dvd divides, Nat.min_zero]

/-- The exponent of a prime is found exactly up to one past the largest code. -/
theorem exponent_eq_min {prime n : Nat} (isPrime : prime.Prime) (positive : n ≠ 0) :
    exponent prime n = min (Symbol.count + 1) (n.factorization prime) := by
  rw [exponent_eq_multiplicity, multiplicity_eq_min isPrime positive]

/-! ## All primes of a table -/

/-- Primes of which each occurs once. -/
structure DistinctPrimes (primes : List Nat) : Prop where
  prime : ∀ p ∈ primes, p.Prime
  distinct : primes.Nodup

namespace DistinctPrimes

variable {prime : Nat} {primes : List Nat}

theorem head (table : DistinctPrimes (prime :: primes)) : prime.Prime :=
  table.prime prime List.mem_cons_self

theorem notMem (table : DistinctPrimes (prime :: primes)) : prime ∉ primes :=
  (List.nodup_cons.mp table.distinct).1

theorem tail (table : DistinctPrimes (prime :: primes)) : DistinctPrimes primes :=
  ⟨fun p member => table.prime p (List.mem_cons_of_mem prime member),
    (List.nodup_cons.mp table.distinct).2⟩

end DistinctPrimes

theorem numberOf_pos {primes : List Nat} (table : DistinctPrimes primes)
    (places : List (Option Symbol)) : 0 < numberOf primes places := by
  induction primes generalizing places with
  | nil => cases places <;> exact Nat.one_pos
  | cons prime primes ih =>
    cases places with
    | nil => exact Nat.one_pos
    | cons place places => exact Nat.mul_pos (Nat.pow_pos table.head.pos) (ih table.tail places)

/-- A prime outside the table does not divide the numbers of the table. -/
theorem not_dvd_numberOf {prime : Nat} {primes : List Nat} (isPrime : prime.Prime)
    (table : DistinctPrimes primes) (outside : prime ∉ primes) (places : List (Option Symbol)) :
    ¬ prime ∣ numberOf primes places := by
  induction primes generalizing places with
  | nil => cases places <;> simpa [numberOf] using isPrime.one_lt.ne'
  | cons p primes ih =>
    cases places with
    | nil => simpa using isPrime.one_lt.ne'
    | cons place places =>
      obtain ⟨different, outside⟩ := List.ne_and_not_mem_of_not_mem_cons outside
      rw [numberOf_cons, isPrime.dvd_mul]
      rintro (power | rest)
      · have divides := isPrime.dvd_of_dvd_pow power
        exact different ((Nat.prime_dvd_prime_iff_eq isPrime table.head).mp divides)
      · exact ih table.tail outside places rest

/-- The exponent of the first prime is the code of the first place. -/
theorem factorization_numberOf {prime : Nat} {primes : List Nat}
    (table : DistinctPrimes (prime :: primes)) (place : Option Symbol)
    (places : List (Option Symbol)) :
    (numberOf (prime :: primes) (place :: places)).factorization prime = Symbol.codeOf place := by
  have rest := not_dvd_numberOf table.head table.tail table.notMem places
  rw [numberOf_cons, Nat.factorization_mul (pow_ne_zero _ table.head.ne_zero)
    (numberOf_pos table.tail places).ne', Finsupp.add_apply, Nat.factorization_pow_self table.head,
    Nat.factorization_eq_zero_of_not_dvd rest, Nat.add_zero]

/-- Only the empty list has the number `1` and does not end in an empty place. -/
theorem eq_nil_of_numberOf_eq_one {primes : List Nat} {places : List (Option Symbol)}
    (table : DistinctPrimes primes) (fits : places.length ≤ primes.length)
    (trimmed : Trimmed places) (one : numberOf primes places = 1) : places = [] := by
  induction primes generalizing places with
  | nil => exact List.eq_nil_of_length_eq_zero (Nat.le_zero.mp fits)
  | cons prime primes ih =>
    cases places with
    | nil => rfl
    | cons place places =>
      have power := Nat.eq_one_of_mul_eq_one_right one
      have rest := Nat.eq_one_of_mul_eq_one_left one
      have empty : place = none := by
        rcases Nat.pow_eq_one.mp power with unit | zero
        · exact (table.head.ne_one unit).elim
        · exact Symbol.codeOf_eq_zero_iff.mp zero
      obtain ⟨trimmed, last⟩ := trimmed_cons_iff.mp trimmed
      have none := ih table.tail (Nat.le_of_succ_le_succ fits) trimmed rest
      exact (last none empty).elim

/-! ## Reading the exponents -/

/-- One prime is read from a number that is not used up. -/
theorem readExponents_cons {prime : Nat} {primes : List Nat} (isPrime : prime.Prime)
    {available position n : Nat} (positive : n ≠ 0) (more : n ≠ 1) :
    readExponents available position n (prime :: primes) =
      if n.factorization prime ≤ Symbol.count then
        (readExponents available (position + 1) (n / prime ^ n.factorization prime) primes).map
          (Symbol.ofCode? (n.factorization prime) :: ·)
      else .error (.exponentTooLarge prime position) := by
  have found := exponent_eq_min isPrime positive
  rw [readExponents, if_neg more]
  by_cases small : n.factorization prime ≤ Symbol.count
  · have exact' : exponent prime n = n.factorization prime := by omega
    simp only [exact', if_neg (Nat.not_lt.mpr small), if_pos small, Nat.pow_eq]
  · have large : exponent prime n > Symbol.count := by omega
    rw [if_neg small, if_pos large]

/-- One prime is read from a number: its exponent has to be a code, and the rest is read from the
number without the prime. -/
theorem readExponents_cons_eq_ok_iff {prime : Nat} {primes : List Nat} (isPrime : prime.Prime)
    {available position n : Nat} (positive : n ≠ 0) (more : n ≠ 1)
    {places : List (Option Symbol)} :
    readExponents available position n (prime :: primes) = .ok places ↔
      n.factorization prime ≤ Symbol.count ∧ ∃ rest,
        readExponents available (position + 1) (n / prime ^ n.factorization prime) primes =
          .ok rest ∧
        Symbol.ofCode? (n.factorization prime) :: rest = places := by
  rw [readExponents_cons isPrime positive more]
  by_cases small : n.factorization prime ≤ Symbol.count
  · simp only [small, true_and]
    cases readExponents available (position + 1) (n / prime ^ n.factorization prime) primes with
    | error fault => simp [Except.map]
    | ok rest => simp [Except.map]
  · simp [small]

theorem readExponents_one_eq_ok_iff {primes : List Nat} (table : DistinctPrimes primes)
    {available position : Nat} {places : List (Option Symbol)} :
    readExponents available position 1 primes = .ok places ↔
      places.length ≤ primes.length ∧ Trimmed places ∧ numberOf primes places = 1 := by
  have stops : readExponents available position 1 primes = .ok [] := by
    cases primes <;> rfl
  rw [stops]
  constructor
  · intro empty
    obtain rfl := Except.ok.inj empty
    exact ⟨Nat.zero_le _, by simp [Trimmed], numberOf_nil primes⟩
  · rintro ⟨fits, trimmed, one⟩
    rw [eq_nil_of_numberOf_eq_one table fits trimmed one]

/-- What is read from a number has that number, and every list that does not end in an empty place
and fits into the table is read from its number. -/
theorem readExponents_eq_ok_iff {primes : List Nat} (table : DistinctPrimes primes)
    {available position n : Nat} (positive : n ≠ 0) {places : List (Option Symbol)} :
    readExponents available position n primes = .ok places ↔
      places.length ≤ primes.length ∧ Trimmed places ∧ numberOf primes places = n := by
  induction primes generalizing position n places with
  | nil =>
    rcases eq_or_ne n 1 with rfl | more
    · exact readExponents_one_eq_ok_iff table
    rw [readExponents, if_neg more]
    constructor
    · intro read
      contradiction
    · rintro ⟨fits, _, number⟩
      obtain rfl := List.eq_nil_of_length_eq_zero (Nat.le_zero.mp fits)
      exact (more number.symm).elim
  | cons prime primes ih =>
    rcases eq_or_ne n 1 with rfl | more
    · exact readExponents_one_eq_ok_iff table
    have split := Nat.ordProj_mul_ordCompl_eq_self n prime
    rw [readExponents_cons_eq_ok_iff table.head positive more]
    constructor
    · rintro ⟨small, rest, read, rfl⟩
      have quotient := (Nat.ordCompl_pos prime positive).ne'
      obtain ⟨fits, trimmed, number⟩ := (ih table.tail quotient).mp read
      refine ⟨Nat.succ_le_succ fits, trimmed_cons_iff.mpr ⟨trimmed, ?_⟩, ?_⟩
      · -- An empty place with nothing after it leaves `n` unchanged, so `n` would be `1`.
        rintro rfl empty
        have zero : n.factorization prime = 0 := by
          rw [← Symbol.codeOf_ofCode? small, empty]
          rfl
        rw [zero, Nat.pow_zero, Nat.one_mul, Nat.div_one] at split
        rw [numberOf_nil, zero, Nat.pow_zero, Nat.div_one] at number
        exact more number.symm
      · rw [numberOf_cons, Symbol.codeOf_ofCode? small, number, split]
    · rintro ⟨fits, trimmed, rfl⟩
      cases places with
      | nil => exact (more (numberOf_nil _)).elim
      | cons place places =>
        obtain ⟨trimmed, _⟩ := trimmed_cons_iff.mp trimmed
        have code := factorization_numberOf table place places
        have quotient : numberOf (prime :: primes) (place :: places) /
            prime ^ Symbol.codeOf place = numberOf primes places :=
          Nat.mul_div_cancel_left _ (Nat.pow_pos table.head.pos)
        rw [code, quotient]
        refine ⟨Symbol.codeOf_le place, places, ?_, by rw [Symbol.ofCode?_codeOf]⟩
        exact (ih table.tail (numberOf_pos table.tail places).ne').mpr
          ⟨Nat.le_of_succ_le_succ fits, trimmed, rfl⟩

end Encoder

end Arithmetization
