import Arithmetization.Encoding
import Arithmetization.Proofs.Primes.Trials
import Mathlib.NumberTheory.Chebyshev

/-! # Tables of primes in words of 64 bits

The trials can be made with words of 64 bits, in which products and sums wrap around. A trial in
words stands for the trial in natural numbers with the values of its words. As long as no square of
an entry and no next candidate reaches `2 ^ 64`, one step of either gives what the step of the other
gives, and so do all of them together. On the way to a table whose last prime is below `2 ^ 32` no
entry is larger than that prime and no candidate goes beyond the first one after it, so nothing
wraps around. There are thousands of primes below `2 ^ 17` already.
-/

namespace Arithmetization.PrimeTable

namespace Trial

/-- What the next step computes fits into a word of 64 bits. -/
structure FitsWords (trial : Trial) : Prop where
  square_lt : ∀ p ∈ trial.table.entries, p * p < 2 ^ 64
  candidate_lt : nextCandidate trial.candidate < 2 ^ 64

end Trial

/-- A trial whose numbers are words. -/
structure WordTrial where
  entries : Array UInt64
  candidate : UInt64

namespace WordTrial

/-- The empty table, for which two is tried first. -/
def start : WordTrial := ⟨#[], 2⟩

/-- Whether no entry whose square, as a word, is up to the candidate divides it. -/
def admits (trial : WordTrial) : Bool :=
  (trial.entries.takeWhile fun p => p * p ≤ trial.candidate).all fun p => trial.candidate % p ≠ 0

/-- The table with the candidate added to it if it is admitted, and the next candidate. -/
def next (trial : WordTrial) : WordTrial :=
  ⟨if trial.admits then trial.entries.push trial.candidate else trial.entries,
    trial.candidate + if trial.candidate = 2 then 1 else 2⟩

/-- The trial with the values of the words. -/
def toTrial (trial : WordTrial) : Trial :=
  ⟨⟨trial.entries.map UInt64.toNat⟩, trial.candidate.toNat⟩

/-! ## One step -/

variable {trial : WordTrial}

theorem toNat_square {p : UInt64} (fits : p.toNat * p.toNat < 2 ^ 64) :
    (p * p).toNat = p.toNat * p.toNat := by
  rw [UInt64.toNat_mul, Nat.mod_eq_of_lt fits]

/-- Entries whose squares are exact are tried as natural numbers are. -/
theorem all_takeWhile_square {entries : List UInt64} (candidate : UInt64)
    (fits : ∀ p ∈ entries, p.toNat * p.toNat < 2 ^ 64) :
    ((entries.takeWhile fun p => p * p ≤ candidate).all fun p => candidate % p ≠ 0) =
      (((entries.map UInt64.toNat).takeWhile fun p => p * p ≤ candidate.toNat).all
        fun p => candidate.toNat % p ≠ 0) := by
  induction entries with
  | nil => rfl
  | cons p entries ih =>
    obtain ⟨square, fits⟩ := List.forall_mem_cons.mp fits
    have small : p * p ≤ candidate ↔ p.toNat * p.toNat ≤ candidate.toNat := by
      rw [UInt64.le_iff_toNat_le, toNat_square square]
    have divides : candidate % p = 0 ↔ candidate.toNat % p.toNat = 0 := by
      rw [← UInt64.toNat_inj, UInt64.toNat_mod, UInt64.toNat_zero]
    rw [List.map_cons]
    by_cases square_le : p * p ≤ candidate
    · rw [List.takeWhile_cons_of_pos (by simpa using square_le),
        List.takeWhile_cons_of_pos (by simpa using small.mp square_le), List.all_cons,
        List.all_cons, ih fits]
      simp only [ne_eq, divides]
    · rw [List.takeWhile_cons_of_neg (by simpa using square_le),
        List.takeWhile_cons_of_neg (by simpa using mt small.mpr square_le)]
      rfl

theorem admits_toTrial (fits : trial.toTrial.FitsWords) :
    trial.admits = trial.toTrial.table.admits trial.toTrial.candidate := by
  have squares : ∀ p ∈ trial.entries.toList, p.toNat * p.toNat < 2 ^ 64 := fun p member =>
    fits.square_lt p.toNat (Array.mem_map.mpr ⟨p, Array.mem_toList_iff.mp member, rfl⟩)
  rw [admits, PrimeTable.admits, ← Array.all_toList, ← Array.all_toList, Array.toList_takeWhile,
    Array.toList_takeWhile, all_takeWhile_square trial.candidate squares, ← Array.toList_map]
  rfl

theorem toNat_nextCandidate {candidate : UInt64} (fits : nextCandidate candidate.toNat < 2 ^ 64) :
    (candidate + if candidate = 2 then 1 else 2).toNat = nextCandidate candidate.toNat := by
  by_cases two : candidate = 2
  · subst two
    rfl
  · have other : candidate.toNat ≠ 2 := fun same => two (UInt64.toNat_inj.mp same)
    rw [nextCandidate, if_neg other] at fits ⊢
    rw [if_neg two, UInt64.toNat_add]
    exact Nat.mod_eq_of_lt fits

/-- A step in words is the step in natural numbers if what it computes fits. -/
theorem toTrial_next (fits : trial.toTrial.FitsWords) :
    trial.next.toTrial = trial.toTrial.next := by
  have candidates : trial.next.candidate.toNat = nextCandidate trial.candidate.toNat :=
    toNat_nextCandidate fits.candidate_lt
  have tables : trial.next.entries.map UInt64.toNat = trial.toTrial.next.table.entries := by
    rw [next, Trial.next, admits_toTrial fits]
    split
    · rw [Array.map_push]
      rfl
    · rfl
  rw [toTrial, candidates, tables]
  rfl

/-- As long as everything fits, the trials in words are the trials in natural numbers. -/
theorem toTrial_iterate (rounds : Nat)
    (fits : ∀ earlier < rounds, (Trial.next^[earlier] .start).FitsWords) :
    (next^[rounds] start).toTrial = Trial.next^[rounds] .start := by
  induction rounds with
  | zero =>
    rw [Function.iterate_zero_apply, Function.iterate_zero_apply, toTrial, start, Array.map_empty]
    rfl
  | succ rounds ih =>
    have same := ih fun earlier less => fits earlier (Nat.lt_succ_of_lt less)
    have last := fits rounds (Nat.lt_succ_self rounds)
    rw [← same] at last
    rw [Function.iterate_succ_apply', Function.iterate_succ_apply', toTrial_next last, same]

end WordTrial

/-! ## What is computed on the way to a table -/

namespace Trial

theorem candidate_lt_next (trial : Trial) : trial.candidate < trial.next.candidate := by
  change trial.candidate < nextCandidate trial.candidate
  rw [nextCandidate]
  split <;> omega

theorem entries_prefix_next (trial : Trial) :
    trial.table.toList <+: trial.next.table.toList := by
  rw [next]
  split
  · exact ⟨[trial.candidate], by simp [toList]⟩
  · exact List.prefix_rfl

/-- Candidates only grow. -/
theorem candidate_iterate_le (trial : Trial) {earlier later : Nat} (le : earlier ≤ later) :
    (next^[earlier] trial).candidate ≤ (next^[later] trial).candidate := by
  induction later, le using Nat.le_induction with
  | base => exact Nat.le_refl _
  | succ later le ih =>
    rw [Function.iterate_succ_apply']
    exact ih.trans (candidate_lt_next _).le

/-- No entry is ever taken out of a table. -/
theorem entries_prefix_iterate (trial : Trial) {earlier later : Nat} (le : earlier ≤ later) :
    (next^[earlier] trial).table.toList <+: (next^[later] trial).table.toList := by
  induction later, le using Nat.le_induction with
  | base => exact List.prefix_rfl
  | succ later le ih =>
    rw [Function.iterate_succ_apply']
    exact ih.trans (entries_prefix_next _)

end Trial

/-- The candidate after a table is hardly larger than its last prime. -/
theorem firstCandidate_first_le (count : Nat) :
    (first count).firstCandidate ≤ Nat.nth Nat.Prime (count - 1) + 2 := by
  cases count with
  | zero => exact Nat.le_add_left 2 _
  | succ k =>
    rw [firstCandidate_of_entries (toList_first (k + 1)), nextCandidate, Nat.add_sub_cancel]
    split <;> omega

theorem le_of_mem_first {count p : Nat} (member : p ∈ (first count).toList) :
    p ≤ Nat.nth Nat.Prime (count - 1) := by
  rw [toList_first] at member
  obtain ⟨i, inside, rfl⟩ := List.mem_map.mp member
  have below := List.mem_range.mp inside
  exact (Nat.nth_le_nth Nat.infinite_setOfPred_prime).mpr (by omega)

/-- On the way to a table whose last prime is small nothing is too large for a word. -/
theorem fitsWords_of_reached {count trials : Nat}
    (small : Nat.nth Nat.Prime (count - 1) < 2 ^ 32)
    (reached : Trial.next^[trials] .start = ⟨first count, (first count).firstCandidate⟩)
    {earlier : Nat} (less : earlier < trials) :
    (Trial.next^[earlier] .start).FitsWords := by
  constructor
  · intro p member
    have listed : p ∈ (Trial.next^[earlier] .start).table.toList := Array.mem_toList_iff.mpr member
    have kept := (Trial.entries_prefix_iterate .start less.le).subset listed
    rw [reached] at kept
    have le := le_of_mem_first kept
    calc
      p * p < 2 ^ 32 * 2 ^ 32 := Nat.mul_lt_mul'' (by omega) (by omega)
      _ = 2 ^ 64 := rfl
  · have le := Trial.candidate_iterate_le .start less
    rw [Function.iterate_succ_apply', reached] at le
    have last := firstCandidate_first_le count
    calc
      (Trial.next^[earlier] .start).next.candidate ≤ (first count).firstCandidate := le
      _ < 2 ^ 64 := by omega

/-! ## The size of the primes -/

/-- There are at least as many primes up to `2 ^ 17` as an encoder may ask for. -/
theorem maxCapacity_le_primeCounting : Encoder.maxCapacity ≤ (2 ^ 17).primeCounting := by
  have bound := Chebyshev.pi_ge (2 ^ 17)
  have positive : 0 < Real.log 2 := Real.log_pos (by norm_num)
  have power : Real.log ((2 ^ 17 : ℕ) : ℝ) = 17 * Real.log 2 := by
    rw [Nat.cast_pow, Real.log_pow]
    norm_num
  have successor : Real.log ((2 ^ 17 : ℕ) + 1 : ℝ) ≤ 18 * Real.log 2 := by
    calc
      Real.log ((2 ^ 17 : ℕ) + 1 : ℝ) ≤ Real.log (2 ^ 18) :=
        Real.log_le_log (by positivity) (by norm_num)
      _ = 18 * Real.log 2 := by rw [Real.log_pow]; norm_num
  have enough : (4096 : ℝ) ≤
      (((2 ^ 17 : ℕ) : ℝ) * Real.log 2 - Real.log ((2 ^ 17 : ℕ) + 1)) /
        Real.log ((2 ^ 17 : ℕ) : ℝ) := by
    rw [power, le_div_iff₀ (by positivity)]
    push_cast at successor ⊢
    linarith
  exact_mod_cast enough.trans bound

theorem nth_prime_lt {i : Nat} (less : i < Encoder.maxCapacity) :
    Nat.nth Nat.Prime i < 2 ^ 32 := by
  have counted : i < Nat.count Nat.Prime (2 ^ 17 + 1) :=
    less.trans_le maxCapacity_le_primeCounting
  exact (Nat.nth_lt_of_lt_count counted).trans (by norm_num)

/-! ## Exactness -/

/-- The trials in words end, when the table is large enough for the first time, with the first
`count` primes. Until then they are the trials in natural numbers, and nothing they compute is too
large for a word. -/
def WordTrial.ListsFirst (count : Nat) : Prop :=
  ∃ rounds, (next^[rounds] start).entries.map UInt64.toNat = (first count).entries ∧
    (∀ earlier ≤ rounds, (next^[earlier] start).toTrial = Trial.next^[earlier] .start) ∧
    ∀ earlier < rounds, (next^[earlier] start).entries.size < count ∧
      (next^[earlier] start).toTrial.FitsWords

theorem WordTrial.listsFirst_of_lt {count : Nat}
    (small : Nat.nth Nat.Prime (count - 1) < 2 ^ 32) : ListsFirst count := by
  obtain ⟨rounds, reached, smaller⟩ := exists_iterate_first count
  have fits (earlier : Nat) (less : earlier < rounds) := fitsWords_of_reached small reached less
  have same (earlier : Nat) (le : earlier ≤ rounds) :
      (next^[earlier] start).toTrial = Trial.next^[earlier] .start :=
    toTrial_iterate earlier fun before less => fits before (less.trans_le le)
  refine ⟨rounds, ?_, same, ?_⟩
  · have last := same rounds (Nat.le_refl rounds)
    rw [reached] at last
    exact congrArg (fun trial => trial.table.entries) last
  · intro earlier less
    have size := smaller earlier less
    rw [← same earlier less.le] at size
    rw [same earlier less.le]
    exact ⟨by simpa [toTrial, PrimeTable.size] using size, fits earlier less⟩

/-- Words of 64 bits are enough for every table whose last prime is below `2 ^ 32`, and so for every
table that an encoder may have. -/
theorem word_trials_exact :
    (∀ count, Nat.nth Nat.Prime (count - 1) < 2 ^ 32 → WordTrial.ListsFirst count) ∧
      ∀ count ≤ Encoder.maxCapacity, WordTrial.ListsFirst count := by
  refine ⟨fun count small => WordTrial.listsFirst_of_lt small, fun count le => ?_⟩
  have positive : 0 < Encoder.maxCapacity := by decide
  exact WordTrial.listsFirst_of_lt (nth_prime_lt (by omega))

/-- The last prime of the largest table is small enough, and a table of five is not too large. -/
theorem word_trials_exact_largest :
    Nat.nth Nat.Prime (4096 - 1) < 2 ^ 32 ∧ WordTrial.ListsFirst 4096 ∧
      5 ≤ Encoder.maxCapacity ∧ WordTrial.ListsFirst 5 := by
  have small : Nat.nth Nat.Prime (4096 - 1) < 2 ^ 32 := nth_prime_lt (by decide)
  have few : 5 ≤ Encoder.maxCapacity := by decide
  exact ⟨small, word_trials_exact.1 4096 small, few, word_trials_exact.2 5 few⟩

end Arithmetization.PrimeTable
