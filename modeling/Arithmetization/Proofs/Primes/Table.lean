import Arithmetization.Primes
import Mathlib.NumberTheory.Bertrand
import Mathlib.NumberTheory.PrimeCounting

/-! # A table holds the first primes

Trial division by the entries up to the square root decides primality as long as the table holds
all smaller primes. Between a prime and its double there is another prime, so the search reaches
the next prime within its limit, and by induction on the number of entries the table of size `n`
lists the first `n` primes.
-/

namespace Arithmetization.PrimeTable

variable {table : PrimeTable} {candidate target : Nat}

/-- In an increasing list, an initial segment is cut off by a bound on squares. -/
theorem mem_takeWhile_square {entries : List Nat} (increasing : entries.Pairwise (· < ·))
    (bound p : Nat) :
    p ∈ entries.takeWhile (fun q => q * q ≤ bound) ↔ p ∈ entries ∧ p * p ≤ bound := by
  induction entries with
  | nil => simp
  | cons q entries ih =>
    obtain ⟨smaller, increasing⟩ := List.pairwise_cons.mp increasing
    by_cases small : q * q ≤ bound
    · rw [List.takeWhile_cons_of_pos (by simpa using small), List.mem_cons, List.mem_cons,
        ih increasing]
      constructor
      · rintro (rfl | ⟨member, below⟩)
        · exact ⟨.inl rfl, small⟩
        · exact ⟨.inr member, below⟩
      · rintro ⟨rfl | member, below⟩
        · exact .inl rfl
        · exact .inr ⟨member, below⟩
    · rw [List.takeWhile_cons_of_neg (by simpa using small)]
      constructor
      · intro member
        cases member
      · rintro ⟨member, below⟩
        have larger : q ≤ p := by
          rcases List.mem_cons.mp member with rfl | member
          · exact Nat.le_refl p
          · exact (smaller p member).le
        exact (small ((Nat.mul_le_mul larger larger).trans below)).elim

/-- A table of primes that has all smaller ones admits a candidate exactly if it is prime. -/
theorem admits_iff_prime (increasing : table.toList.Pairwise (· < ·))
    (members : ∀ p ∈ table.toList, p.Prime)
    (complete : ∀ p, p.Prime → p < candidate → p ∈ table.toList) (two_le : 2 ≤ candidate) :
    table.admits candidate = true ↔ candidate.Prime := by
  have tested : table.admits candidate = true ↔
      ∀ p ∈ table.toList, p * p ≤ candidate → ¬ p ∣ candidate := by
    rw [admits, ← Array.all_toList, Array.toList_takeWhile, List.all_eq_true]
    change (∀ p ∈ table.toList.takeWhile (fun q => q * q ≤ candidate), _) ↔ _
    simp only [mem_takeWhile_square increasing, and_imp, decide_eq_true_eq,
      Nat.dvd_iff_mod_eq_zero, ne_eq]
  rw [tested]
  constructor
  · intro untouched
    by_contra composite
    have smallest : candidate.minFac.Prime := Nat.minFac_prime (by omega)
    have square : candidate.minFac * candidate.minFac ≤ candidate := by
      rw [← Nat.pow_two]
      exact Nat.minFac_sq_le_self (by omega) composite
    have below : candidate.minFac < candidate :=
      (Nat.lt_mul_self_iff.mpr smallest.one_lt).trans_le square
    exact untouched _ (complete _ smallest below) square (Nat.minFac_dvd candidate)
  · intro prime p member square divides
    obtain rfl : p = candidate :=
      (Nat.prime_dvd_prime_iff_eq (members p member) prime).mp divides
    exact (Nat.lt_mul_self_iff.mpr prime.one_lt).not_ge square

/-! ## The search -/

theorem nextCandidate_of_odd (odd : candidate % 2 = 1) :
    nextCandidate candidate = candidate + 2 := by
  rw [nextCandidate, if_neg (by omega)]

/-- The search from an odd number finds the first prime from there on. -/
theorem search_eq (prime : target.Prime) (limit : Nat)
    (admits : ∀ n, candidate ≤ n → n ≤ target → (table.admits n = true ↔ n.Prime))
    (first : ∀ p, p.Prime → candidate ≤ p → target ≤ p) (odd : candidate % 2 = 1)
    (three_le : 3 ≤ candidate) (le : candidate ≤ target)
    (reaches : target ≤ candidate + 2 * limit) :
    table.search limit candidate = target := by
  induction limit generalizing candidate with
  | zero =>
    rw [search]
    omega
  | succ limit ih =>
    have decides := admits candidate (Nat.le_refl candidate) le
    by_cases prime' : candidate.Prime
    · rw [search, if_pos (decides.mpr prime')]
      exact le.antisymm (first candidate prime' (Nat.le_refl candidate))
    · rw [search, if_neg (fun admitted => prime' (decides.mp admitted)), nextCandidate_of_odd odd]
      have different : target ≠ candidate := by
        rintro rfl
        exact prime' prime
      -- Steps of two keep the parity, so the search does not pass over an odd target.
      have targetOdd : target % 2 = 1 := by
        rcases prime.eq_two_or_odd with rfl | odd'
        · omega
        · exact odd'
      apply ih
      · intro n lower upper
        exact admits n (by omega) upper
      · intro p prime lower
        exact first p prime (by omega)
      · omega
      · omega
      · omega
      · omega

/-! ## The first primes -/

theorem nth_prime_lt_iff {i j : Nat} : Nat.nth Nat.Prime i < Nat.nth Nat.Prime j ↔ i < j :=
  Nat.nth_lt_nth Nat.infinite_setOfPred_prime

theorem nth_prime_succ_le {k p : Nat} (prime : p.Prime) (above : Nat.nth Nat.Prime k < p) :
    Nat.nth Nat.Prime (k + 1) ≤ p := by
  rw [← Nat.nth_count prime] at above ⊢
  exact (Nat.nth_le_nth Nat.infinite_setOfPred_prime).mpr (nth_prime_lt_iff.mp above)

section

variable {count : Nat} (entries : table.toList = (List.range count).map (Nat.nth Nat.Prime))

include entries

theorem increasing_of_entries : table.toList.Pairwise (· < ·) := by
  rw [entries, List.pairwise_map]
  exact List.pairwise_lt_range.imp nth_prime_lt_iff.mpr

theorem prime_of_mem_entries {p : Nat} (member : p ∈ table.toList) : p.Prime := by
  rw [entries] at member
  obtain ⟨i, _, rfl⟩ := List.mem_map.mp member
  exact Nat.prime_nth_prime i

theorem mem_entries_of_prime {p : Nat} (prime : p.Prime) (below : p < Nat.nth Nat.Prime count) :
    p ∈ table.toList := by
  rw [← Nat.nth_count prime] at below ⊢
  rw [entries]
  exact List.mem_map.mpr ⟨_, List.mem_range.mpr (nth_prime_lt_iff.mp below), rfl⟩

/-- Up to the next prime, the table admits exactly the primes. -/
theorem admits_iff_of_entries {n : Nat} (two_le : 2 ≤ n) (le : n ≤ Nat.nth Nat.Prime count) :
    table.admits n = true ↔ n.Prime :=
  admits_iff_prime (increasing_of_entries entries)
    (fun _ member => prime_of_mem_entries entries member)
    (fun _ prime below => mem_entries_of_prime entries prime (below.trans_le le)) two_le

end

theorem nextPrime_of_empty (entries : table.toList = []) : table.nextPrime = 2 := by
  have start : table.firstCandidate = 2 := by
    have empty : table.entries = #[] := Array.toList_eq_nil_iff.mp entries
    rw [firstCandidate, empty]
    rfl
  have zeroth : table.toList = (List.range 0).map (Nat.nth Nat.Prime) := entries
  have admitted : table.admits 2 = true :=
    (admits_iff_of_entries zeroth le_rfl Nat.nth_prime_zero_eq_two.ge).mpr Nat.prime_two
  rw [nextPrime, start, search, if_pos admitted]

/-- The candidate after a prime is the least odd number above it. -/
theorem nextCandidate_of_prime {p : Nat} (prime : p.Prime) :
    nextCandidate p % 2 = 1 ∧ p < nextCandidate p ∧
      ∀ q, q.Prime → p < q → nextCandidate p ≤ q := by
  rcases prime.eq_two_or_odd with rfl | odd
  · exact ⟨rfl, by decide, fun q _ above => above⟩
  · rw [nextCandidate_of_odd odd]
    refine ⟨by omega, by omega, fun q prime' above => ?_⟩
    have := prime.two_le
    rcases prime'.eq_two_or_odd with rfl | odd' <;> omega

theorem firstCandidate_of_entries {k : Nat}
    (entries : table.toList = (List.range (k + 1)).map (Nat.nth Nat.Prime)) :
    table.firstCandidate = nextCandidate (Nat.nth Nat.Prime k) := by
  have last : table.entries.back? = some (Nat.nth Nat.Prime k) := by
    rw [← Array.getLast?_toList]
    change table.toList.getLast? = _
    rw [entries, List.range_succ, List.map_append, List.map_singleton, List.getLast?_concat]
  rw [firstCandidate, last]

theorem nextPrime_eq {count : Nat}
    (entries : table.toList = (List.range count).map (Nat.nth Nat.Prime)) :
    table.nextPrime = Nat.nth Nat.Prime count := by
  cases count with
  | zero => rw [nextPrime_of_empty entries, Nat.nth_prime_zero_eq_two]
  | succ k =>
    have before : (Nat.nth Nat.Prime k).Prime := Nat.prime_nth_prime k
    have target : (Nat.nth Nat.Prime (k + 1)).Prime := Nat.prime_nth_prime (k + 1)
    have less : Nat.nth Nat.Prime k < Nat.nth Nat.Prime (k + 1) :=
      nth_prime_lt_iff.mpr (Nat.lt_succ_self k)
    obtain ⟨odd, above, least⟩ := nextCandidate_of_prime before
    have three_le : 3 ≤ nextCandidate (Nat.nth Nat.Prime k) := by
      have := before.two_le
      omega
    rw [nextPrime, firstCandidate_of_entries entries]
    apply search_eq target
    · intro n lower upper
      exact admits_iff_of_entries entries (by omega) upper
    · intro p prime lower
      exact nth_prime_succ_le prime (above.trans_le lower)
    · exact odd
    · exact three_le
    · exact least _ target less
    · obtain ⟨p, prime, beyond, le⟩ := Nat.exists_prime_lt_and_le_two_mul _ before.ne_zero
      have reached := nth_prime_succ_le prime beyond
      omega

/-- The table of size `count` lists the first `count` primes in order. -/
theorem toList_first (count : Nat) :
    (first count).toList = (List.range count).map (Nat.nth Nat.Prime) := by
  induction count with
  | zero => rfl
  | succ count ih =>
    rw [first, toList_extend, nextPrime_eq ih, ih, List.range_succ, List.map_append,
      List.map_singleton]

end Arithmetization.PrimeTable
