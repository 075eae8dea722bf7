/-!
# Names

Identifiers and labels are plain texts. A fresh name is a given one with as few primes behind it as
keep it apart from the names to avoid.
-/

namespace RecordLambda

/-- Adds primes to a name as long as it is to be avoided, at most `n` of them. -/
def prime (avoid : List String) : Nat → String → String
  | 0, x => x
  | n + 1, x => if x ∈ avoid then prime avoid n (x ++ "'") else x

/-- The name `base` with the fewest primes that miss every name in `avoid`. There are more names of
this kind with at most `avoid.length` primes than there are names to avoid. -/
def fresh (base : String) (avoid : List String) : String :=
  prime avoid avoid.length base

/-- The distinct names of a list in ascending order. -/
def sortNames (xs : List String) : List String :=
  (xs.mergeSort fun x y => !decide (y < x)).eraseReps

end RecordLambda
