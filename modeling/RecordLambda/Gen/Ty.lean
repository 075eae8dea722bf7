import RecordLambda.Gen.Source
import RecordLambda.Syntax.Record

/-!
# Random types

Well-formed types end every chain in the empty record; arbitrary types end it anywhere. Labels may
repeat.
-/

namespace RecordLambda

/-- The names that random syntax is made of, and how deep it goes if nothing else is said. -/
structure Vocabulary where
  bases : List String
  labels : List String
  names : List String
  maxDepth : Int

namespace Vocabulary

/-- A small vocabulary. -/
def small : Vocabulary := ⟨["A", "B"], ["i1", "i2", "i3"], ["a", "b", "c"], 3⟩

/-- The depth asked for, or the usual one. There is nothing below the depth zero. -/
def depth (voc : Vocabulary) (d : Option Int) : Nat :=
  (d.getD voc.maxDepth).toNat

/-- A ground type. -/
def baseTy (voc : Vocabulary) : Gen Ty := do
  return .base (← Gen.pick voc.bases)

/-- A label with something. -/
def labelled {α : Type} (voc : Vocabulary) (g : Gen α) : Gen (String × α) := do
  let l ← Gen.pick voc.labels
  let a ← g
  return (l, a)

/-- A well-formed type. -/
def wfTy (voc : Vocabulary) : Nat → Gen Ty
  | 0 => do
    if ← Gen.coin then voc.baseTy else return .empty
  | d + 1 => do
    let g ← Gen.pick [
      voc.baseTy,
      do
        let A ← voc.wfTy d
        let B ← voc.wfTy d
        return .arrow A B,
      do
        let n ← Gen.upTo 3
        let fields ← Gen.times n (voc.labelled (voc.wfTy d))
        return Ty.ofFields fields .empty]
    g

/-- Any type, with anything as the rest of a cell. -/
def anyTy (voc : Vocabulary) : Nat → Gen Ty
  | 0 => do
    let T ← voc.baseTy
    Gen.pick [T, .empty]
  | d + 1 => do
    let g ← Gen.pick [
      voc.baseTy,
      do
        let A ← voc.anyTy d
        let B ← voc.anyTy d
        return .arrow A B,
      do return .empty,
      do
        let (l, A) ← voc.labelled (voc.anyTy d)
        let R ← voc.anyTy d
        return .cell l A R]
    g

end Vocabulary

end RecordLambda
