import Arithmetization.Proofs.Decimal
import Arithmetization.Proofs.Encoding.RoundTrip
import Mathlib.Algebra.BigOperators.Intervals
import Mathlib.Order.Bounds.Basic

/-! # Which numbers are encodings

Decoding depends on a number only through the exponents of the primes of the table. The first
exponent past the largest code is reported, whatever else the number contains; without one, the
number is an encoding exactly if it has no other factors, and its symbols have the exponents as their
codes.
-/

namespace Arithmetization.Encoder

/-! ## Reading exponents -/

section

variable {primes : List Nat} {available n : Nat}

/-- Dividing by the power of one prime leaves the exponents of the others. -/
theorem factorization_div {prime other : Nat} (different : other ≠ prime) :
    (n / prime ^ n.factorization prime).factorization other = n.factorization other := by
  rw [Nat.factorization_ordCompl, Finsupp.erase_ne different]

/-- The first exponent past the largest code is reported, whatever comes after it. -/
theorem readExponents_of_large {before after : List Nat} {prime : Nat}
    (table : DistinctPrimes (before ++ prime :: after)) (position : Nat) (positive : n ≠ 0)
    (small : ∀ p ∈ before, n.factorization p ≤ Symbol.count)
    (large : Symbol.count < n.factorization prime) :
    readExponents available position n (before ++ prime :: after) =
      .error (.exponentTooLarge prime (position + before.length)) := by
  have more : n ≠ 1 := by
    rintro rfl
    simp at large
  induction before generalizing position n with
  | nil =>
    have table : DistinctPrimes (prime :: after) := table
    rw [List.nil_append, readExponents_cons table.head positive more,
      if_neg (Nat.not_le.mpr large)]
    rfl
  | cons p before ih =>
    rw [List.cons_append] at table
    obtain ⟨smallHead, smallRest⟩ := List.forall_mem_cons.mp small
    have others : ∀ q ∈ before ++ prime :: after,
        (n / p ^ n.factorization p).factorization q = n.factorization q := by
      intro q member
      apply factorization_div
      rintro rfl
      exact table.notMem member
    have same := others prime (List.mem_append_right _ List.mem_cons_self)
    have more' : n / p ^ n.factorization p ≠ 1 := by
      intro one
      rw [one, Nat.factorization_one] at same
      rw [← same] at large
      exact Nat.not_lt_zero _ large
    rw [List.cons_append, readExponents_cons table.head positive more, if_pos smallHead,
      ih table.tail (position + 1) (Nat.ordCompl_pos p positive).ne' _ (same ▸ large) more']
    · simp only [Except.map, List.length_cons]
      rw [Nat.add_assoc, Nat.add_comm 1]
    · intro q member
      rw [others q (List.mem_append_left _ member)]
      exact smallRest q member

/-- Without an exponent past the largest code, only other factors can be reported. -/
theorem readExponents_of_small (table : DistinctPrimes primes) (position : Nat) (positive : n ≠ 0)
    (small : ∀ p ∈ primes, n.factorization p ≤ Symbol.count) :
    (∃ places, readExponents available position n primes = .ok places) ∨
      readExponents available position n primes = .error (.factorsBeyondTable available) := by
  induction primes generalizing position n with
  | nil =>
    rw [readExponents]
    by_cases one : n = 1
    · exact .inl ⟨[], if_pos one⟩
    · exact .inr (if_neg one)
  | cons p primes ih =>
    by_cases one : n = 1
    · exact .inl ⟨[], by rw [readExponents, if_pos one]⟩
    obtain ⟨smallHead, smallRest⟩ := List.forall_mem_cons.mp small
    have smallRest' : ∀ q ∈ primes,
        (n / p ^ n.factorization p).factorization q ≤ Symbol.count := by
      intro q member
      rw [factorization_div]
      · exact smallRest q member
      · rintro rfl
        exact table.notMem member
    rw [readExponents_cons table.head positive one, if_pos smallHead]
    rcases ih table.tail (position + 1) (Nat.ordCompl_pos p positive).ne' smallRest' with
      ⟨places, read⟩ | refused
    · exact .inl ⟨_, by rw [read]; rfl⟩
    · exact .inr (by rw [refused]; rfl)

end

/-! ## Codes by position -/

/-- The code at a position of a list of places, `0` past its end. -/
def codeAt (places : List (Option Symbol)) (position : Nat) : Nat :=
  Symbol.codeOf (places[position]?.getD none)

@[simp] theorem codeAt_nil (position : Nat) : codeAt [] position = 0 := rfl

@[simp] theorem codeAt_cons_zero (place : Option Symbol) (places : List (Option Symbol)) :
    codeAt (place :: places) 0 = Symbol.codeOf place := rfl

@[simp] theorem codeAt_cons_succ (place : Option Symbol) (places : List (Option Symbol))
    (position : Nat) : codeAt (place :: places) (position + 1) = codeAt places position := rfl

/-- The number of a list of places as a product over all positions. -/
theorem numberOf_map_range (prime : Nat → Nat) (count : Nat) (places : List (Option Symbol)) :
    numberOf ((List.range count).map prime) places =
      ∏ i ∈ Finset.range count, prime i ^ codeAt places i := by
  induction count generalizing prime places with
  | zero => cases places <;> rfl
  | succ count ih =>
    cases places with
    | nil => simp
    | cons place places =>
      rw [List.range_succ_eq_map, List.map_cons, List.map_map, numberOf_cons, ih,
        Finset.prod_range_succ', Nat.mul_comm]
      rfl

/-- The exponent of a prime of the table is the code at its position. -/
theorem factorization_numberOf_at {primes : List Nat} (table : DistinctPrimes primes)
    {position prime : Nat} (found : primes[position]? = some prime)
    (places : List (Option Symbol)) :
    (numberOf primes places).factorization prime = codeAt places position := by
  induction primes generalizing position places with
  | nil => contradiction
  | cons p primes ih =>
    cases places with
    | nil => simp
    | cons place places =>
      cases position with
      | zero =>
        obtain rfl := Option.some.inj found
        exact factorization_numberOf table place places
      | succ position =>
        have member : prime ∈ primes := List.mem_of_getElem? found
        have isPrime : prime.Prime := table.tail.prime prime member
        have outside : ¬ prime ∣ p ^ Symbol.codeOf place := by
          intro divides
          have same := (Nat.prime_dvd_prime_iff_eq isPrime table.head).mp
            (isPrime.dvd_of_dvd_pow divides)
          exact table.notMem (same ▸ member)
        rw [numberOf_cons, Nat.factorization_mul (pow_ne_zero _ table.head.ne_zero)
          (numberOf_pos table.tail places).ne', Finsupp.add_apply,
          Nat.factorization_eq_zero_of_not_dvd outside, Nat.zero_add, codeAt_cons_succ]
        exact ih table.tail found places

/-- The code at a position says what stands there. -/
theorem codeAt_eq_iff {places : List (Option Symbol)} {position code : Nat}
    (inside : position < places.length) :
    codeAt places position = code ↔ (code = 0 ∧ places[position]? = some none) ∨
      ∃ symbol, code = symbol.code ∧ places[position]? = some (some symbol) := by
  rw [codeAt, List.getElem?_eq_getElem inside, Option.getD_some]
  cases places[position] with
  | none => simp [Symbol.codeOf, eq_comm]
  | some symbol => simp [Symbol.codeOf, eq_comm]

theorem codeAt_of_length_le {places : List (Option Symbol)} {position : Nat}
    (outside : places.length ≤ position) : codeAt places position = 0 := by
  rw [codeAt, List.getElem?_eq_none outside]
  rfl

/-- A list does not end in an empty place if there is a code at its end. -/
theorem trimmed_iff_codeAt_pos {places : List (Option Symbol)} {last : Nat}
    (length : places.length = last + 1) : Trimmed places ↔ 0 < codeAt places last := by
  have inside : last < places.length := by omega
  rw [Trimmed, List.getLast?_eq_getElem?, length, Nat.add_sub_cancel, codeAt,
    List.getElem?_eq_getElem inside, Option.getD_some, Nat.pos_iff_ne_zero, ne_eq, ne_eq,
    Symbol.codeOf_eq_zero_iff, Option.some_inj]

/-! ## The verdict on a number -/

/-- The exponent of the prime at a position in a number. -/
noncomputable def exponentAt (n position : Nat) : Nat :=
  n.factorization (Nat.nth Nat.Prime position)

/-- The part of a number that the first primes make up. -/
noncomputable def tablePart (capacity n : Nat) : Nat :=
  ∏ i ∈ Finset.range capacity, Nat.nth Nat.Prime i ^ exponentAt n i

/-- The places up to the last prime that divides a number, with the exponents as their codes. -/
structure Lists (capacity n : Nat) (places : List (Option Symbol)) : Prop where
  length : (n = 1 ∧ places.length = 0) ∨
    (n ≠ 1 ∧ ∃ last, IsGreatest {i | i < capacity ∧ 0 < exponentAt n i} last ∧
      places.length = last + 1)
  entries : ∀ i < places.length, (exponentAt n i = 0 ∧ places[i]? = some none) ∨
    ∃ symbol, exponentAt n i = symbol.code ∧ places[i]? = some (some symbol)

/-- What decoding has to find out about a number, said of its prime factors. -/
inductive Verdict (capacity : Nat) : Nat → Except Error (List (Option Symbol)) → Prop where
  | zero : Verdict capacity 0 (.error (.notAnEncoding 0 .zero))
  /-- Some exponent is past the largest code. The first one is reported, and other factors are not. -/
  | large {n position : Nat} (positive : n ≠ 0) (inside : position < capacity)
      (large : Symbol.count < exponentAt n position)
      (first : ∀ i < position, exponentAt n i ≤ Symbol.count) :
      Verdict capacity n
        (.error (.notAnEncoding n (.exponentTooLarge (Nat.nth Nat.Prime position) position)))
  | beyond {n : Nat} (positive : n ≠ 0) (small : ∀ i < capacity, exponentAt n i ≤ Symbol.count)
      (more : n ≠ tablePart capacity n) :
      Verdict capacity n (.error (.notAnEncoding n (.factorsBeyondTable capacity)))
  | places {n : Nat} {places : List (Option Symbol)} (positive : n ≠ 0)
      (small : ∀ i < capacity, exponentAt n i ≤ Symbol.count) (whole : n = tablePart capacity n)
      (listed : Lists capacity n places) : Verdict capacity n (.ok places)

section

variable {capacity n : Nat} {places : List (Option Symbol)}

theorem exponentAt_one (position : Nat) : exponentAt 1 position = 0 := by
  rw [exponentAt, Nat.factorization_one]
  rfl

theorem tablePart_eq_one (zero : ∀ i < capacity, exponentAt n i = 0) : tablePart capacity n = 1 := by
  apply Finset.prod_eq_one
  intro i member
  rw [zero i (Finset.mem_range.mp member), Nat.pow_zero]

/-- A list with the exponents as its codes has the part in the table as its number. -/
theorem numberOf_eq_tablePart (codes : ∀ i < capacity, codeAt places i = exponentAt n i) :
    numberOf ((List.range capacity).map (Nat.nth Nat.Prime)) places = tablePart capacity n := by
  rw [numberOf_map_range]
  apply Finset.prod_congr rfl
  intro i member
  rw [codes i (Finset.mem_range.mp member)]

theorem Lists.length_le (listed : Lists capacity n places) : places.length ≤ capacity := by
  rcases listed.length with ⟨_, empty⟩ | ⟨_, last, ⟨⟨inside, _⟩, _⟩, length⟩
  · rw [empty]
    exact Nat.zero_le capacity
  · rw [length]
    exact inside

theorem Lists.codeAt_eq (listed : Lists capacity n places) {i : Nat} (below : i < capacity) :
    codeAt places i = exponentAt n i := by
  by_cases inside : i < places.length
  · exact (codeAt_eq_iff inside).mpr (listed.entries i inside)
  rw [codeAt_of_length_le (Nat.not_lt.mp inside)]
  rcases listed.length with ⟨rfl, _⟩ | ⟨_, last, ⟨_, greatest⟩, length⟩
  · exact (exponentAt_one i).symm
  · by_contra nonzero
    have le := greatest ⟨below, Nat.pos_of_ne_zero (Ne.symm nonzero)⟩
    omega

theorem Lists.trimmed (listed : Lists capacity n places) : Trimmed places := by
  rcases listed.length with ⟨_, empty⟩ | ⟨_, last, ⟨⟨inside, positive⟩, _⟩, length⟩
  · rw [List.eq_nil_of_length_eq_zero empty]
    simp [Trimmed]
  · rw [trimmed_iff_codeAt_pos length, listed.codeAt_eq inside]
    exact positive

/-- The exponents as codes, without empty places at the end, are the list of a number that has no
other factors. -/
theorem lists_of_codes (whole : n = tablePart capacity n) (fits : places.length ≤ capacity)
    (trimmed : Trimmed places) (codes : ∀ i < capacity, codeAt places i = exponentAt n i) :
    Lists capacity n places where
  entries i inside := (codeAt_eq_iff inside).mp (codes i (inside.trans_le fits))
  length := by
    cases length : places.length with
    | zero =>
      obtain rfl := List.eq_nil_of_length_eq_zero length
      have one : n = 1 := whole.trans (tablePart_eq_one fun i below => (codes i below).symm)
      exact .inl ⟨one, rfl⟩
    | succ last =>
      have inside : last < capacity := by omega
      have positive : 0 < exponentAt n last := by
        rw [← codes last inside]
        exact (trimmed_iff_codeAt_pos length).mp trimmed
      have more : n ≠ 1 := by
        rintro rfl
        exact positive.ne (exponentAt_one last).symm
      refine .inr ⟨more, last, ⟨⟨inside, positive⟩, ?_⟩, rfl⟩
      rintro i ⟨below, positive⟩
      by_contra above
      rw [← codes i below, codeAt_of_length_le (by omega)] at positive
      exact Nat.lt_irrefl 0 positive

/-! ## Decoding finds the verdict -/

/-- The first primes. -/
theorem distinctPrimes_map_range (capacity : Nat) :
    DistinctPrimes ((List.range capacity).map (Nat.nth Nat.Prime)) := by
  rw [← PrimeTable.toList_first]
  exact distinctPrimes_first capacity

theorem decode_first (positive : n ≠ 0) :
    decode ⟨.first capacity⟩ n =
      (readExponents capacity 0 n ((List.range capacity).map (Nat.nth Nat.Prime))).mapError
        (.notAnEncoding n) := by
  rw [decode, if_neg positive, capacity_first, PrimeTable.toList_first]

/-- A number is decoded if it has no factors past the table, and to the list with its exponents as
codes. -/
theorem decode_first_eq_ok_iff :
    decode ⟨.first capacity⟩ n = .ok places ↔
      (n = tablePart capacity n ∧ places.length ≤ capacity ∧ Trimmed places ∧
        ∀ i < capacity, codeAt places i = exponentAt n i) := by
  rw [decode_eq_ok_iff (distinctPrimes_first capacity), capacity_first, PrimeTable.toList_first]
  constructor
  · rintro ⟨fits, trimmed, rfl⟩
    have codes : ∀ i < capacity, codeAt places i =
        exponentAt (numberOf ((List.range capacity).map (Nat.nth Nat.Prime)) places) i := by
      intro i below
      have found : ((List.range capacity).map (Nat.nth Nat.Prime))[i]? =
          some (Nat.nth Nat.Prime i) := by
        rw [List.getElem?_map, List.getElem?_range below]
        rfl
      exact (factorization_numberOf_at (distinctPrimes_map_range capacity) found places).symm
    exact ⟨numberOf_eq_tablePart codes, fits, trimmed, codes⟩
  · rintro ⟨whole, fits, trimmed, codes⟩
    exact ⟨fits, trimmed, (numberOf_eq_tablePart codes).trans whole.symm⟩

theorem decode_of_large {position : Nat} (positive : n ≠ 0) (inside : position < capacity)
    (large : Symbol.count < exponentAt n position)
    (first : ∀ i < position, exponentAt n i ≤ Symbol.count) :
    decode ⟨.first capacity⟩ n =
      .error (.notAnEncoding n (.exponentTooLarge (Nat.nth Nat.Prime position) position)) := by
  obtain ⟨rest, rfl⟩ := Nat.exists_eq_add_of_lt inside
  have split : (List.range (position + rest + 1)).map (Nat.nth Nat.Prime) =
      (List.range position).map (Nat.nth Nat.Prime) ++ Nat.nth Nat.Prime position ::
        (List.range rest).map (fun i => Nat.nth Nat.Prime (position + (i + 1))) := by
    rw [Nat.add_assoc, List.range_add, List.map_append, List.range_succ_eq_map]
    simp
  have table := distinctPrimes_map_range (position + rest + 1)
  rw [split] at table
  rw [decode_first positive, split, readExponents_of_large table 0 positive _ large]
  · simp [Except.mapError]
  · intro p member
    obtain ⟨i, below, rfl⟩ := List.mem_map.mp member
    exact first i (List.mem_range.mp below)

theorem decode_of_small (positive : n ≠ 0) (small : ∀ i < capacity, exponentAt n i ≤ Symbol.count) :
    (∃ places, decode ⟨.first capacity⟩ n = .ok places) ∨
      decode ⟨.first capacity⟩ n = .error (.notAnEncoding n (.factorsBeyondTable capacity)) := by
  have small' : ∀ p ∈ (List.range capacity).map (Nat.nth Nat.Prime),
      n.factorization p ≤ Symbol.count := by
    intro p member
    obtain ⟨i, below, rfl⟩ := List.mem_map.mp member
    exact small i (List.mem_range.mp below)
  rw [decode_first positive]
  rcases readExponents_of_small (distinctPrimes_map_range capacity) 0 positive small' with
    ⟨places, read⟩ | refused
  · exact .inl ⟨places, by rw [read]; rfl⟩
  · exact .inr (by rw [refused]; rfl)

/-- A number without other factors and without an exponent past the largest code is decoded. -/
theorem decode_of_whole (small : ∀ i < capacity, exponentAt n i ≤ Symbol.count)
    (whole : n = tablePart capacity n) : ∃ places, decode ⟨.first capacity⟩ n = .ok places := by
  let all := (List.range capacity).map fun i => Symbol.ofCode? (exponentAt n i)
  have codes : ∀ i < capacity, codeAt all i = exponentAt n i := by
    intro i below
    rw [codeAt, List.getElem?_map, List.getElem?_range below]
    exact Symbol.codeOf_ofCode? (small i below)
  have length : (all.rdropWhile Option.isNone).length ≤ capacity := by
    have shorter := (List.rdropWhile_prefix Option.isNone all).length_le
    rwa [List.length_map, List.length_range] at shorter
  refine ⟨all.rdropWhile Option.isNone, (decode_eq_ok_iff (distinctPrimes_first capacity)).mpr
    ⟨by rwa [capacity_first], trimmed_rdropWhile all, ?_⟩⟩
  rw [numberOf_rdropWhile, PrimeTable.toList_first]
  exact (numberOf_eq_tablePart codes).trans whole.symm

theorem decode_of_verdict {result : Except Error (List (Option Symbol))}
    (verdict : Verdict capacity n result) : decode ⟨.first capacity⟩ n = result := by
  cases verdict with
  | zero => rfl
  | large positive inside large first => exact decode_of_large positive inside large first
  | beyond positive small more =>
    rcases decode_of_small positive small with ⟨places, decoded⟩ | refused
    · exact (more (decode_first_eq_ok_iff.mp decoded).1).elim
    · exact refused
  | places positive small whole listed =>
    exact decode_first_eq_ok_iff.mpr
      ⟨whole, listed.length_le, listed.trimmed, fun _ below => listed.codeAt_eq below⟩

theorem exists_verdict (capacity n : Nat) : ∃ result, Verdict capacity n result := by
  classical
  rcases eq_or_ne n 0 with rfl | positive
  · exact ⟨_, .zero⟩
  by_cases some : ∃ i, i < capacity ∧ Symbol.count < exponentAt n i
  · obtain ⟨inside, large⟩ := Nat.find_spec some
    refine ⟨_, .large positive inside large ?_⟩
    intro i below
    by_contra earlier
    exact Nat.find_min some below ⟨below.trans inside, Nat.not_le.mp earlier⟩
  have small : ∀ i < capacity, exponentAt n i ≤ Symbol.count := by
    intro i below
    by_contra large
    exact some ⟨i, below, Nat.not_le.mp large⟩
  by_cases whole : n = tablePart capacity n
  · obtain ⟨places, decoded⟩ := decode_of_whole small whole
    obtain ⟨_, fits, trimmed, codes⟩ := decode_first_eq_ok_iff.mp decoded
    exact ⟨_, .places positive small whole (lists_of_codes whole fits trimmed codes)⟩
  · exact ⟨_, .beyond positive small whole⟩

theorem decode_first_eq_iff {result : Except Error (List (Option Symbol))} :
    decode ⟨.first capacity⟩ n = result ↔ Verdict capacity n result := by
  constructor
  · rintro rfl
    obtain ⟨result, verdict⟩ := exists_verdict capacity n
    rwa [decode_of_verdict verdict]
  · exact decode_of_verdict

/-- Only numbers that are not encodings are refused, and the refusal names the number. -/
theorem decode_first_eq_error {error : Error} (refused : decode ⟨.first capacity⟩ n = .error error) :
    ∃ fault, error = .notAnEncoding n fault := by
  cases decode_first_eq_iff.mp refused with
  | zero => exact ⟨.zero, rfl⟩
  | large => exact ⟨_, rfl⟩
  | beyond => exact ⟨_, rfl⟩

end

/-- Within every admissible capacity, decoding finds the verdict on every number, and its errors
carry the number in decimal. -/
theorem decode_classifies (capacity : Nat) (bound : capacity ≤ maxCapacity) :
    ∃ encoder, ofCapacity capacity = .ok encoder ∧
      (∀ n result, encoder.decode n = result ↔ Verdict capacity n result) ∧
      ∀ n error, encoder.decode n = .error error →
        ∃ fault, error = .notAnEncoding n fault ∧
          error.message = toString n ++ " is not a Gödel number: " ++ fault.message := by
  refine ⟨_, ofCapacity_eq_ok bound, fun _ _ => decode_first_eq_iff, ?_⟩
  intro n error refused
  obtain ⟨fault, rfl⟩ := decode_first_eq_error refused
  refine ⟨fault, rfl, ?_⟩
  rw [← Decimal.text_eq_toString]
  rfl

/-- The exponent of the first prime is reported although the number has a factor past the table. -/
theorem decode_classifies_large : 2 ≤ maxCapacity ∧ ∃ encoder, ofCapacity 2 = .ok encoder ∧
    encoder.decode (2 ^ 18 * 5) = .error (.notAnEncoding (2 ^ 18 * 5) (.exponentTooLarge 2 0)) ∧
    Error.message (.notAnEncoding (2 ^ 18 * 5) (.exponentTooLarge 2 0)) =
      "1310720 is not a Gödel number: " ++ DecodingFault.message (.exponentTooLarge 2 0) := by
  obtain ⟨encoder, built, verdict, named⟩ := decode_classifies 2 (by decide)
  have exponent : exponentAt (2 ^ 18 * 5) 0 = 18 := by
    have rest : (5 : Nat).factorization 2 = 0 :=
      Nat.factorization_eq_zero_of_not_dvd (by decide)
    rw [exponentAt, Nat.nth_prime_zero_eq_two, Nat.factorization_mul (by decide) (by decide),
      Finsupp.add_apply, Nat.factorization_pow_self Nat.prime_two, rest]
  have found : Verdict 2 (2 ^ 18 * 5)
      (.error (.notAnEncoding (2 ^ 18 * 5) (.exponentTooLarge (Nat.nth Nat.Prime 0) 0))) := by
    refine .large (by decide) (by decide) ?_ ?_
    · rw [exponent]
      decide
    · intro i below
      contradiction
  rw [Nat.nth_prime_zero_eq_two] at found
  have refused := (verdict _ _).mpr found
  obtain ⟨fault, same, message⟩ := named _ _ refused
  obtain rfl := (Error.notAnEncoding.inj same).2
  exact ⟨by decide, encoder, built, refused, message⟩

end Arithmetization.Encoder
