/-!
# A source of draws

Random choices are made from an explicit source: some numbers that are given in advance, and after
them those of a linear congruential generator. Since any numbers may be given, every finite sequence
of draws is that of some source. The source counts what was drawn. A choice from nothing fails
before it draws, and a failure keeps the draws that were made before it.
-/

namespace RecordLambda

/-- The numbers still given, the state of the generator behind them, and the number of draws so
far. -/
structure Source where
  given : List Nat
  state : Nat
  used : Nat
deriving DecidableEq

/-- The source of some given numbers and a seed for those after them. -/
def Source.ofSeed (given : List Nat) (seed : Nat) : Source := ⟨given, seed, 0⟩

/-- The next number. -/
def Source.next (s : Source) : Nat × Source :=
  match s.given with
  | n :: rest => (n, ⟨rest, s.state, s.used + 1⟩)
  | [] =>
    let state := (s.state * 6364136223846793005 + 1442695040888963407) % 0x10000000000000000
    (state >>> 33, ⟨[], state, s.used + 1⟩)

/-- A choice from nothing. -/
structure EmptyChoice where
deriving DecidableEq

/-- What is said about a choice from nothing. -/
def EmptyChoice.message (_ : EmptyChoice) : String := "high <= 0"

/-- A computation that draws from a source. -/
abbrev Gen (α : Type) := ExceptT EmptyChoice (StateM Source) α

namespace Gen

variable {α : Type}

/-- Runs a computation on a source. -/
def runOn (g : Gen α) (s : Source) : Except EmptyChoice α × Source :=
  (ExceptT.run g).run s

/-- The next number of the source. -/
def raw : Gen Nat := fun s => let (n, s) := s.next; (.ok n, s)

/-- A number below `n + 1`. -/
def upTo (n : Nat) : Gen Nat := do
  return (← raw) % (n + 1)

/-- An item of a list. -/
def pick (xs : List α) : Gen α :=
  match xs with
  | [] => throw ⟨⟩
  | x :: rest => do
    let i ← upTo rest.length
    return (x :: rest)[i]?.getD x

/-- A toss that is won in about seven cases of ten. -/
def coin : Gen Bool := do
  return (← raw) % 0x80000000 ≤ 1503238553

/-- As many results as asked for. -/
def times : Nat → Gen α → Gen (List α)
  | 0, _ => return []
  | n + 1, g => do
    let a ← g
    let rest ← times n g
    return a :: rest

/-- Exchanges the items `i`, `i - 1`, … `1` with one that does not come after them. -/
def shuffleFrom : Nat → Array α → Gen (Array α)
  | 0, xs => return xs
  | i + 1, xs => do
    let j ← upTo (i + 1)
    shuffleFrom i (xs.swapIfInBounds (i + 1) j)

/-- The items of a list in a random order. -/
def shuffle (xs : List α) : Gen (List α) := do
  return (← shuffleFrom (xs.length - 1) xs.toArray).toList

/-- The first result that is there. -/
def firstSome : List (Gen (Option α)) → Gen (Option α)
  | [] => return none
  | g :: gs => do
    match ← g with
    | some a => return some a
    | none => firstSome gs

end Gen

end RecordLambda
