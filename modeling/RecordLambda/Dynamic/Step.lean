import RecordLambda.Dynamic.Subst
import RecordLambda.Syntax.Fault
import RecordLambda.Syntax.Record

/-!
# Values and steps

Values are abstractions and records of values; the end of a chain of values may also be an
abstraction. A step is one call-by-value reduction at the leftmost place that is not yet a value. A
term without a step is a value or stuck.

The same rules read as independent inference rules give the list of all `reducts` of a term.
-/

namespace RecordLambda

namespace Term

/-- A value. -/
def isValue : Term → Bool
  | .abs .. | .empty => true
  | .cell _ v r => v.isValue && r.isValue
  | _ => false

/-- One reduction step, if there is one. A hole in the place to be reduced is a fault. -/
def step : Term → Except Fault (Option Term)
  | .var _ | .abs .. | .empty => .ok none
  | .app f a =>
    if !f.isValue then return (← f.step).map (.app · a)
    else if !a.isValue then return (← a.step).map (.app f ·)
    else
      match f with
      | .abs x _ b => .ok (some (b.subst x a))
      | _ => .ok none
  | .proj r l =>
    if !r.isValue then return (← r.step).map (.proj · l)
    else .ok (r.lookup l)
  | .cell l v r =>
    if !v.isValue then return (← v.step).map (.cell l · r)
    else return (← r.step).map (.cell l v ·)
  | .hole => .error (.notTerm Term.hole)

/-- The results of all reduction rules that apply to a term, none being preferred. -/
def reducts : Term → List Term
  | .app f a =>
    f.reducts.map (.app · a)
      ++ (if f.isValue then a.reducts.map (.app f ·) else [])
      ++ (match f with
          | .abs x _ b => if a.isValue then [b.subst x a] else []
          | _ => [])
  | .proj r l =>
    r.reducts.map (.proj · l) ++ (if r.isValue then (r.lookup l).toList else [])
  | .cell l v r =>
    v.reducts.map (.cell l · r) ++ (if v.isValue then r.reducts.map (.cell l v ·) else [])
  | _ => []

end Term

/-! ## Anything

What is no term is no value of the calculus, has no rule, and cannot be asked for a step.
-/

namespace Value

/-- A term that is a value of the calculus. -/
def isValue : Value → Bool
  | .node (.term t) => t.isValue
  | _ => false

/-- One reduction step of a value, which has to be a term. -/
def step : Value → Except Fault (Option Term)
  | .node (.term t) => t.step
  | v => .error (.notTerm v)

/-- Neither a value of the calculus nor able to step. -/
def isStuck (v : Value) : Except Fault Bool :=
  if v.isValue then .ok false else return (← v.step).isNone

/-- The results of all reduction rules that apply. -/
def reducts : Value → List Term
  | .node (.term t) => t.reducts
  | _ => []

end Value

end RecordLambda
