import RecordLambda.Name
import Mathlib.Data.Finset.Card
import Mathlib.Data.List.Basic
import Mathlib.Tactic.Lemma

/-!
# Fresh names

A name with `k` primes behind it is longer than the name by `k`, so no two of the candidates that
`prime` goes through are the same. Therefore only as many of them can be taken as there are names to
avoid, and `fresh` ends on one that is not taken.

The bound on the search is there for its definition only. `primeWithin` says what a search has found
when its bound is reached, which may be nothing; from some bound on it finds the fresh name.
-/

namespace RecordLambda

/-- A name with some primes behind it. -/
def primed : Nat → String → String
  | 0, x => x
  | k + 1, x => primed k (x ++ "'")

/-- A prime is one character. -/
lemma length_primed (k : Nat) (x : String) : (primed k x).length = x.length + k := by
  induction k generalizing x with
  | zero => rfl
  | succ k ih =>
    rw [primed, ih, String.length_append]
    have len : "'".length = 1 := rfl
    omega

/-- Different numbers of primes give different names. -/
lemma primed_injective (x : String) : Function.Injective (primed · x) := by
  intro j k e
  have len := congrArg String.length e
  simp only [length_primed] at len
  omega

/-- The search passes over taken names only, and it stops at the first one that is not taken unless
it has come to its bound. -/
lemma prime_eq_primed (avoid : List String) (n : Nat) (x : String) :
    ∃ k ≤ n, prime avoid n x = primed k x ∧
      (∀ j < k, primed j x ∈ avoid) ∧ (k < n → primed k x ∉ avoid) := by
  induction n generalizing x with
  | zero => exact ⟨0, Nat.le_refl 0, rfl, nofun, nofun⟩
  | succ n ih =>
    by_cases mem : x ∈ avoid
    · obtain ⟨k, le, eq, taken, free⟩ := ih (x ++ "'")
      refine ⟨k + 1, Nat.succ_le_succ le, ?_, ?_, ?_⟩
      · rw [prime, if_pos mem, eq, primed]
      · rintro (_ | j) lt
        · exact mem
        · exact taken j (Nat.lt_of_succ_lt_succ lt)
      · intro lt
        exact free (Nat.lt_of_succ_lt_succ lt)
    · refine ⟨0, Nat.zero_le _, ?_, nofun, fun _ => mem⟩
      rw [prime, if_neg mem, primed]

/-- There are at least as many names to avoid as there are candidates taken. -/
lemma le_card_of_primed_mem {avoid : List String} {x : String} {k : Nat}
    (taken : ∀ j < k, primed j x ∈ avoid) : k ≤ avoid.toFinset.card := by
  have le := Finset.card_le_card_of_injOn (primed · x) (s := Finset.range k) (t := avoid.toFinset)
    (fun j lt => List.mem_toFinset.2 (taken j (Finset.mem_range.1 lt)))
    (primed_injective x).injOn
  rwa [Finset.card_range] at le

/-- The new name is the first of the primed ones that is not to be avoided. -/
lemma exists_fresh_eq_primed (base : String) (avoid : List String) :
    ∃ k, fresh base avoid = primed k base ∧
      (∀ j < k, primed j base ∈ avoid) ∧ primed k base ∉ avoid := by
  obtain ⟨k, le, eq, taken, free⟩ := prime_eq_primed avoid avoid.length base
  refine ⟨k, eq, taken, ?_⟩
  intro mem
  -- if the last candidate were taken, there would be more of them than names to avoid
  have all : ∀ j < k + 1, primed j base ∈ avoid := by
    intro j lt
    rcases Nat.lt_succ_iff_lt_or_eq.1 lt with lt | rfl
    · exact taken j lt
    · exact mem
  have enough := le_card_of_primed_mem all
  have bound := List.toFinset_card_le avoid
  exact free (by omega) mem

/-- The new name is not among those to be avoided. -/
lemma fresh_not_mem (base : String) (avoid : List String) : fresh base avoid ∉ avoid := by
  obtain ⟨k, eq, _, free⟩ := exists_fresh_eq_primed base avoid
  rwa [eq]

/-! ## The end of the search -/

/-- So many primes. -/
def primes (k : Nat) : String := String.ofList (List.replicate k '\'')

/-- The primes stand at the end. -/
lemma primed_eq_append (k : Nat) (x : String) : primed k x = x ++ primes k := by
  induction k generalizing x with
  | zero => rw [primed, primes, List.replicate_zero, String.ofList_nil, String.append_empty]
  | succ k ih =>
    have first : primes (k + 1) = "'" ++ primes k := by
      rw [primes, List.replicate_succ, String.ofList_cons]
      rfl
    rw [primed, ih, first, String.append_assoc]

/-- Adds primes to a name as long as it is to be avoided, and gives up where it would add more than
`n` of them. -/
def primeWithin (avoid : List String) : Nat → String → Option String
  | 0, x => if x ∈ avoid then none else some x
  | n + 1, x => if x ∈ avoid then primeWithin avoid n (x ++ "'") else some x

/-- The search gives up just if its bound is below the first candidate that is not taken. -/
lemma primeWithin_eq {avoid : List String} {k : Nat} {x : String}
    (taken : ∀ j < k, primed j x ∈ avoid) (free : primed k x ∉ avoid) (n : Nat) :
    primeWithin avoid n x = if n < k then none else some (primed k x) := by
  induction k generalizing x n with
  | zero => cases n <;> exact if_neg free
  | succ k ih =>
    have mem : x ∈ avoid := taken 0 (Nat.succ_pos k)
    cases n with
    | zero => rw [primeWithin, if_pos mem, if_pos (Nat.succ_pos k)]
    | succ n =>
      rw [primeWithin, if_pos mem]
      simp only [Nat.add_lt_add_iff_right]
      exact ih (fun j lt => taken (j + 1) (Nat.succ_lt_succ lt)) free n

/-- The search for a fresh name ends after so many rounds as there are primes behind the name. The
name is not taken, every candidate with fewer primes is, and so there are no more primes than
distinct names to avoid. -/
theorem fresh_least_primed (base : String) (avoid : List String) :
    ∃ k ≤ avoid.toFinset.card,
      fresh base avoid = base ++ primes k ∧ fresh base avoid ∉ avoid ∧
      (∀ j < k, base ++ primes j ∈ avoid) ∧
      ∀ n, primeWithin avoid n base = if n < k then none else some (fresh base avoid) := by
  obtain ⟨k, eq, taken, free⟩ := exists_fresh_eq_primed base avoid
  refine ⟨k, le_card_of_primed_mem taken, ?_, fresh_not_mem base avoid, ?_, ?_⟩
  · rw [eq, primed_eq_append]
  · intro j lt
    rw [← primed_eq_append]
    exact taken j lt
  · intro n
    rw [eq]
    exact primeWithin_eq taken free n

/-- A name that ends in a prime, and one name to avoid that comes twice. -/
example :
    let avoid := ["x'", "x", "x''", "x'", "x''''"]
    fresh "x'" avoid = "x'''" ∧ primeWithin avoid 1 "x'" = none ∧
      primeWithin avoid 2 "x'" = some "x'''" := by decide

end RecordLambda
