/-! # Tables of primes

The table of the first primes grows by one prime at a time. A candidate is tried against the
entries whose square does not exceed it; after two only odd candidates are tried. Between a number
and its double there is always a prime, so the search from a candidate is over after as many
further candidates as the candidate's own size.
-/

namespace Arithmetization

/-- The first primes in increasing order. -/
structure PrimeTable where
  entries : Array Nat
deriving DecidableEq, Repr

namespace PrimeTable

/-- The table without entries. -/
def empty : PrimeTable := ⟨#[]⟩

/-- The entries as a list. -/
def toList (table : PrimeTable) : List Nat := table.entries.toList

/-- The number of entries. -/
def size (table : PrimeTable) : Nat := table.entries.size

/-- The prime at a place counted from zero, if the table reaches that far. -/
def get? (table : PrimeTable) (index : Nat) : Option Nat := table.entries[index]?

/-- Whether no entry up to the square root of a candidate divides it. -/
def admits (table : PrimeTable) (candidate : Nat) : Bool :=
  (table.entries.takeWhile fun p => p * p ≤ candidate).all fun p => candidate % p ≠ 0

/-- The candidate that is tried after another one. -/
def nextCandidate (candidate : Nat) : Nat := if candidate = 2 then 3 else candidate + 2

/-- The first candidate that the table admits, among at most `limit` further ones. -/
def search (table : PrimeTable) : (limit candidate : Nat) → Nat
  | 0, candidate => candidate
  | limit + 1, candidate =>
    if table.admits candidate then candidate else table.search limit (nextCandidate candidate)

/-- The first candidate after the last entry. -/
def firstCandidate (table : PrimeTable) : Nat :=
  match table.entries.back? with
  | none => 2
  | some last => nextCandidate last

/-- The smallest prime that is not in the table. -/
def nextPrime (table : PrimeTable) : Nat := table.search table.firstCandidate table.firstCandidate

/-- The table with one more prime. -/
def extend (table : PrimeTable) : PrimeTable :=
  let next := table.nextPrime
  ⟨table.entries.push next⟩

/-- The table of the first `count` primes. -/
def first : Nat → PrimeTable
  | 0 => empty
  | count + 1 => (first count).extend

@[simp] theorem toList_empty : empty.toList = [] := rfl

@[simp] theorem toList_extend (table : PrimeTable) :
    table.extend.toList = table.toList ++ [table.nextPrime] := by
  simp [extend, toList]

@[simp] theorem size_eq_length (table : PrimeTable) : table.size = table.toList.length := by
  simp [size, toList]

/-- A table has as many entries as were asked for. -/
theorem length_first (count : Nat) : (first count).toList.length = count := by
  induction count with
  | zero => rfl
  | succ count ih => simp [first, ih]

end PrimeTable

end Arithmetization
