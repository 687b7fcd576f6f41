import Arithmetization.Proofs.Primes.Table
import Mathlib.Logic.Function.Iterate

/-! # Trying one candidate after another

A table of primes can be grown without any bound on the search: try a candidate, add it if the table
admits it, go on to the next candidate, and stop as soon as the table is as large as it has to be.
Every search within its limit is a number of such trials, so the trials come to an end for every
size of the table, and what they end with is the table of the first primes.
-/

namespace Arithmetization.PrimeTable

/-- A table that grows, with the candidate that is tried next. -/
structure Trial where
  table : PrimeTable
  candidate : Nat

namespace Trial

/-- The empty table, for which two is tried first. -/
def start : Trial := ⟨empty, 2⟩

/-- The table with the candidate added to it if the table admits it, and the next candidate. -/
def next (trial : Trial) : Trial :=
  ⟨if trial.table.admits trial.candidate then ⟨trial.table.entries.push trial.candidate⟩
    else trial.table, nextCandidate trial.candidate⟩

variable {table : PrimeTable} {candidate : Nat}

theorem next_of_admitted (admitted : table.admits candidate = true) :
    next ⟨table, candidate⟩ = ⟨⟨table.entries.push candidate⟩, nextCandidate candidate⟩ := by
  rw [next, if_pos admitted]

theorem next_of_refused (refused : table.admits candidate = false) :
    next ⟨table, candidate⟩ = ⟨table, nextCandidate candidate⟩ := by
  rw [next, if_neg (by simp [refused])]

/-- A search that ends with an admitted candidate is a number of trials that leave the table as it
is, and one more that adds this candidate. -/
theorem exists_iterate_of_search (limit : Nat)
    (admitted : table.admits (table.search limit candidate) = true) :
    ∃ trials,
      next^[trials + 1] ⟨table, candidate⟩ =
        ⟨⟨table.entries.push (table.search limit candidate)⟩,
          nextCandidate (table.search limit candidate)⟩ ∧
      ∀ earlier ≤ trials, (next^[earlier] ⟨table, candidate⟩).table = table := by
  induction limit generalizing candidate with
  | zero =>
    refine ⟨0, next_of_admitted admitted, ?_⟩
    intro earlier le
    rw [Nat.le_zero.mp le, Function.iterate_zero_apply]
  | succ limit ih =>
    rw [search] at admitted ⊢
    cases found : table.admits candidate with
    | true =>
      rw [if_pos rfl]
      refine ⟨0, next_of_admitted found, ?_⟩
      intro earlier le
      rw [Nat.le_zero.mp le, Function.iterate_zero_apply]
    | false =>
      rw [found, if_neg (by decide)] at admitted
      rw [if_neg (by decide)]
      obtain ⟨trials, last, unchanged⟩ := ih admitted
      refine ⟨trials + 1, ?_, ?_⟩
      · rw [Function.iterate_succ_apply, next_of_refused found, last]
      · intro earlier le
        cases earlier with
        | zero => rw [Function.iterate_zero_apply]
        | succ earlier =>
          rw [Function.iterate_succ_apply, next_of_refused found]
          exact unchanged earlier (Nat.le_of_succ_le_succ le)

end Trial

/-- The next prime is admitted, so no search ends because of its limit. -/
theorem admits_nextPrime_first (count : Nat) :
    (first count).admits (first count).nextPrime = true := by
  have entries := toList_first count
  have prime : (Nat.nth Nat.Prime count).Prime := Nat.prime_nth_prime count
  rw [nextPrime_eq entries]
  exact (admits_iff_of_entries entries prime.two_le (Nat.le_refl _)).mpr prime

/-- After a prime was added, the search goes on from the candidate after it. -/
theorem firstCandidate_extend (table : PrimeTable) :
    table.extend.firstCandidate = nextCandidate table.nextPrime := by
  rw [firstCandidate, extend, Array.back?_push]

/-- Trials lead to every table of first primes, and none of the tables before it is as large. -/
theorem exists_iterate_first (count : Nat) :
    ∃ trials,
      Trial.next^[trials] .start = ⟨first count, (first count).firstCandidate⟩ ∧
      ∀ earlier < trials, (Trial.next^[earlier] .start).table.size < count := by
  induction count with
  | zero => exact ⟨0, rfl, fun earlier less => (Nat.not_lt_zero earlier less).elim⟩
  | succ count ih =>
    obtain ⟨before, reached, smaller⟩ := ih
    obtain ⟨further, added, unchanged⟩ :=
      Trial.exists_iterate_of_search _ (admits_nextPrime_first count)
    refine ⟨further + 1 + before, ?_, ?_⟩
    · rw [Function.iterate_add_apply, reached, added, first, firstCandidate_extend]
      rfl
    · intro earlier less
      rcases Nat.lt_or_ge earlier before with first | later
      · exact (smaller earlier first).trans (Nat.lt_succ_self count)
      · obtain ⟨more, rfl⟩ := Nat.exists_eq_add_of_le' later
        rw [Function.iterate_add_apply, reached, unchanged more (by omega), size_eq_length,
          length_first]
        exact Nat.lt_succ_self count

/-- For every size, the trials end: they reach a table of that size, with the first primes. Its
entries are the smallest primes in increasing order, as many as were asked for. -/
theorem trials_list_smallest_primes (count : Nat) :
    (∃ trials, (Trial.next^[trials] .start).table = first count ∧
      ∀ earlier < trials, (Trial.next^[earlier] .start).table.size < count) ∧
    (first count).toList.length = count ∧
    (first count).toList.Pairwise (· < ·) ∧
    (∀ p ∈ (first count).toList, p.Prime) ∧
    ∀ p ∈ (first count).toList, ∀ q, q.Prime → q < p → q ∈ (first count).toList := by
  have entries := toList_first count
  obtain ⟨trials, reached, smaller⟩ := exists_iterate_first count
  refine ⟨⟨trials, congrArg Trial.table reached, smaller⟩, length_first count,
    increasing_of_entries entries, fun p member => prime_of_mem_entries entries member, ?_⟩
  intro p member q prime below
  apply mem_entries_of_prime entries prime
  rw [entries] at member
  obtain ⟨i, inside, rfl⟩ := List.mem_map.mp member
  exact below.trans (nth_prime_lt_iff.mpr (List.mem_range.mp inside))

end Arithmetization.PrimeTable
