import RecordLambda.Syntax.Fault

/-!
# Well-formed types

A type is well formed when every chain of cells in it goes on in a record type. The spine of a chain
is followed cell by cell: a field that is not well formed, or a rest that is no record type, ends
the search. Both sides of an arrow are always looked at, so a hole on either side is noticed.
-/

namespace RecordLambda

/-- Whether a type is well formed. A hole that is met on the way is a fault. -/
def Ty.wellFormed : Ty → Except Fault Bool
  | .base _ | .empty => .ok true
  | .arrow A B => do
    let a ← A.wellFormed
    let b ← B.wellFormed
    return a && b
  | .cell _ A R => do
    if !(← A.wellFormed) then return false
    if !R.isRecord then return false
    R.wellFormed
  | .hole => .error (.notType Ty.hole)

/-- Whether a value is a well-formed type. What is no type is a fault. -/
def Value.wellFormed : Value → Except Fault Bool
  | .node (.ty T) => T.wellFormed
  | v => .error (.notType v)

end RecordLambda
