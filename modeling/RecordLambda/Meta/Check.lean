import RecordLambda.Meta.Property
import RecordLambda.Meta.Report

/-!
# Checking terms and programs

All properties of closed terms are checked at a term, the properties of fields at every label that
occurs in the term or in its type, and the one of substitution at every closed redex. A program is
checked at every term of its run.
-/

namespace RecordLambda

/-- The labels in a type. -/
def Ty.labels : Ty → List String
  | .arrow A B => A.labels ++ B.labels
  | .cell l A R => l :: (A.labels ++ R.labels)
  | _ => []

/-- The labels in a term, those of its annotations included. -/
def Term.labels : Term → List String
  | .app f a => f.labels ++ a.labels
  | .abs _ A b => A.labels ++ b.labels
  | .proj r l => l :: r.labels
  | .cell l v r => l :: (v.labels ++ r.labels)
  | _ => []

/-- The labels in a value. -/
def Value.labels : Value → List String
  | .node (.ty T) => T.labels
  | .node (.term t) => t.labels
  | _ => []

/-- The applications of an abstraction in a term, from the root down and from left to right: the
parameter, its type, the body and the argument. -/
def Term.redexes : Term → List (String × Ty × Term × Term)
  | .app f a =>
    (match f with
      | .abs x A b => [(x, A, b, a)]
      | _ => []) ++ (f.redexes ++ a.redexes)
  | .abs _ _ b => b.redexes
  | .proj r _ => r.redexes
  | .cell _ v r => v.redexes ++ r.redexes
  | _ => []

/-- The redexes in a value. -/
def Value.redexes : Value → List (String × Ty × Term × Term)
  | .node (.term t) => t.redexes
  | _ => []

namespace Value

/-- The checks of the fields, for a value of type `T`. -/
def fieldChecks (v : Value) (T : Ty) : List Check :=
  (sortNames (T.labels ++ v.labels)).flatMap fun l =>
    [⟨"wf_lookup_propagates", lookupKeepsWellFormed T l, T, l⟩,
     ⟨"field_lookup_in_value", v.fieldLookupInValue l, v, l⟩]

/-- The checks of the closed redexes. -/
def redexChecks (v : Value) : List Check :=
  (v.redexes.filter fun (x, A, b, a) => (Term.abs x A b).closed && a.closed).map fun (x, A, b, a) =>
    ⟨"substitution_preserves_typing", substitutionPreservesTyping ∅ x A a b,
      Term.app (.abs x A b) a, ""⟩

/-- All checks at a value, in order. -/
def checks (v : Value) : List Check :=
  [⟨"typing_implies_wf", v.typingImpliesWellFormed ∅, v, ""⟩,
   ⟨"progress", v.progress, v, ""⟩,
   ⟨"preservation", v.preservation, v, ""⟩,
   ⟨"determinism", v.determinism, v, ""⟩,
   ⟨"step_preserves_record_shape", v.stepPreservesRecordShape, v, ""⟩]
  ++ (match v.hasType ∅ with
      | .ok (some T) => v.fieldChecks T
      | _ => [])
  ++ v.redexChecks

/-- Makes all checks at a value and enters them into a report. -/
def checkInto (v : Value) (r : Report) : Report × Option Fault :=
  r.enterAll v.checks

/-- Makes all checks at a value. -/
def check (v : Value) : Except Fault Report :=
  match v.checkInto .empty with
  | (r, none) => .ok r
  | (_, some f) => .error f

end Value

/-- Why a program cannot be checked. -/
inductive CheckError where
  | limit (e : NegativeLimit)
  | unfinished (run : Run)
  | fault (f : Fault)

/-- The usual limit for checking a program. -/
def usualCheckSteps : Int := 1000

/-- Makes all checks at the terms of a run. -/
def Run.check (run : Run) : Except CheckError Report :=
  match Report.empty.enterAll (run.trace.flatMap fun t : Term => Value.checks t) with
  | (r, none) => .ok r
  | (_, some f) => .error (.fault f)

/-- Makes all checks along the run of a value, also when the run reaches its limit. A value with
free variables is not run: it fails the one check of being closed. -/
def Value.checkProgram (horizon : Nat) (maxSteps : Option Int) (v : Value) :
    Except CheckError Report := do
  let names ← v.freeVars.mapError .fault
  if !names.isEmpty then
    let list := Text.commaSep ((sortNames names).map Text.quote)
    return Report.empty.enter "closed" false v ("free variables [" ++ list ++ "]")
  let limit ← (Limit.of horizon maxSteps).mapError .limit
  match v.evaluate limit with
  | .ok run => run.check
  | .error (.outOfFuel _ run) => run.check
  | .error (.unfinished run) => throw (.unfinished run)
  | .error (.fault f) => throw (.fault f)

end RecordLambda
