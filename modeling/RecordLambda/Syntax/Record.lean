import RecordLambda.Syntax.Value

/-!
# Record chains

A chain is seen as the list of its labelled cells and the end, the first thing that is no cell.
Looking up a label finds the first cell that carries it, so a repeated label shadows the later ones.
-/

namespace RecordLambda

namespace Ty

/-- The labelled fields along a chain. -/
def fields : Ty → List (String × Ty)
  | .cell l A R => (l, A) :: R.fields
  | _ => []

/-- What a chain ends in. -/
def chainEnd : Ty → Ty
  | .cell _ _ R => R.chainEnd
  | T => T

/-- The chain of the labelled fields before `rest`. -/
def ofFields (fs : List (String × Ty)) (rest : Ty) : Ty :=
  fs.foldr (fun (l, A) R => .cell l A R) rest

/-- The field type that a label selects. -/
def lookup (label : String) : Ty → Option Ty
  | .cell l A R => if l = label then some A else R.lookup label
  | _ => none

end Ty

namespace Term

/-- The labelled values along a chain. -/
def fields : Term → List (String × Term)
  | .cell l v r => (l, v) :: r.fields
  | _ => []

/-- What a chain ends in. -/
def chainEnd : Term → Term
  | .cell _ _ r => r.chainEnd
  | t => t

/-- The chain of the labelled values before `rest`. -/
def ofFields (fs : List (String × Term)) (rest : Term) : Term :=
  fs.foldr (fun (l, v) r => .cell l v r) rest

/-- The value that a label selects. -/
def lookup (label : String) : Term → Option Term
  | .cell l v r => if l = label then some v else r.lookup label
  | _ => none

end Term

namespace Value

/-- A type shaped like a record type. -/
def isRecordType : Value → Bool
  | .node (.ty T) => T.isRecord
  | _ => false

/-- A term shaped like a record. -/
def isRecordTerm : Value → Bool
  | .node (.term t) => t.isRecord
  | _ => false

/-- The labelled cells along a chain of either kind. -/
def chainFields : Value → List (String × Node)
  | .node (.ty T) => T.fields.map fun (l, A) => (l, .ty A)
  | .node (.term t) => t.fields.map fun (l, v) => (l, .term v)
  | _ => []

/-- What a chain of either kind ends in. -/
def chainEnd : Value → Value
  | .node (.ty T) => T.chainEnd
  | .node (.term t) => t.chainEnd
  | v => v

/-- The field type that a label selects, in a type. -/
def lookupType (label : String) : Value → Option Ty
  | .node (.ty T) => T.lookup label
  | _ => none

/-- The value that a label selects, in a term. -/
def lookupValue (label : String) : Value → Option Term
  | .node (.term t) => t.lookup label
  | _ => none

end Value

end RecordLambda
