import RecordLambda.Dynamic.Eval
import RecordLambda.Static.Typing

/-!
# Properties

Each property is the executable form of a statement that is meant to hold of all terms. It is
checked at one instance, and holds there when a premise fails or the conclusion is true.
-/

namespace RecordLambda

namespace Value

/-- A field of a well-formed record type is well formed. -/
def lookupKeepsWellFormed (v : Value) (label : String) : Except Fault Bool := do
  if !(← v.wellFormed) then return true
  match v.lookupType label with
  | none => return true
  | some A => A.wellFormed

/-- The type of a term is well formed. -/
def typingImpliesWellFormed (Γ : Env) (v : Value) : Except Fault Bool := do
  match ← v.hasType Γ with
  | none => return true
  | some T => T.wellFormed

/-- A field that the type of a closed value promises can be projected, and has the promised type. -/
def fieldLookupInValue (v : Value) (label : String) : Except Fault Bool := do
  if !v.isValue then return true
  match ← v.hasType ∅ with
  | none => return true
  | some T =>
    match T.lookup label with
    | none => return true
    | some A =>
      match v.lookupValue label with
      | none => return false
      | some t => return (← t.hasType ∅) == some A

/-- A closed term with a type is a value or has a step. -/
def progress (v : Value) : Except Fault Bool := do
  match ← v.hasType ∅ with
  | none => return true
  | some _ => if v.isValue then return true else return (← v.step).isSome

/-- A step keeps the type of a closed term. -/
def preservation (v : Value) : Except Fault Bool := do
  match ← v.hasType ∅ with
  | none => return true
  | some T =>
    match ← v.step with
    | none => return true
    | some t => return (← t.hasType ∅) == some T

/-- Putting a closed term `w` of the right type for a variable keeps the type. -/
def substitutionPreservesTyping (Γ : Env) (x : String) (U : Ty) (w v : Value) :
    Except Fault Bool := do
  match ← v.hasType (Γ.insert x U) with
  | none => return true
  | some S =>
    if (← w.hasType ∅) != some U then return true
    match w.term?, v.term? with
    | some s, some t => return (← (t.subst x s).hasType Γ) == some S
    | _, _ => return true

/-- A step leads from a record to a record. -/
def stepPreservesRecordShape (v : Value) : Except Fault Bool := do
  if !v.isRecordTerm then return true
  match ← v.step with
  | none => return true
  | some t => return t.isRecord

/-- At most one rule applies, and the step takes it. -/
def determinism (v : Value) : Except Fault Bool := do
  if v.reducts.length > 1 then return false
  return (← v.step) == v.reducts.head?

end Value

end RecordLambda
