import RecordLambda.Dynamic.Step
import RecordLambda.Syntax.Pretty

/-!
# Evaluation

A run repeats steps until none applies and keeps every term on the way. A limit bounds the number of
steps: a run that could go on beyond it is broken off and handed out as it stands. Without a limit a
run is followed up to a horizon, which the caller puts beyond any run to be waited for.
-/

namespace RecordLambda

/-- How far a run may go. -/
inductive Limit where
  /-- At most so many steps. -/
  | atMost (steps : Nat)
  /-- No limit; the run is followed for `horizon` steps. -/
  | unlimited (horizon : Nat)
deriving DecidableEq

/-- A limit below zero. -/
structure NegativeLimit where
  steps : Int

/-- What is said about a negative limit. -/
def NegativeLimit.message (e : NegativeLimit) : String :=
  "max_steps must be non-negative, got " ++ toString e.steps

/-- The limit for a number of steps; without a number there is none. -/
def Limit.of (horizon : Nat) : Option Int → Except NegativeLimit Limit
  | none => .ok (.unlimited horizon)
  | some n => if n < 0 then .error ⟨n⟩ else .ok (.atMost n.toNat)

/-- The number of steps that a run is followed. -/
def Limit.reach : Limit → Nat
  | atMost n => n
  | unlimited n => n

/-- The terms of a run, from the first to the last. -/
structure Run where
  start : Term
  /-- The terms after the first. -/
  later : List Term
deriving DecidableEq

namespace Run

/-- All terms of a run. -/
def trace (r : Run) : List Term := r.start :: r.later

/-- The last term. -/
def term (r : Run) : Term := r.later.getLastD r.start

/-- The number of steps. -/
def steps (r : Run) : Nat := r.later.length

/-- A run that came to a value. -/
def isValue (r : Run) : Bool := r.term.isValue

/-- A run that did not come to a value. -/
def stuck (r : Run) : Bool := !r.isValue

/-- The text of a run. -/
def pretty (r : Run) : Except Fault String := do
  let status := if r.stuck then "stuck" else "value"
  return "EvalResult(" ++ status ++ " after " ++ toString r.steps ++ " steps: "
    ++ (← r.term.pretty) ++ ")"

/-- The value of a run; one that did not come to a value gives its stuck term. -/
def unwrap (r : Run) : Except Term Term :=
  if r.stuck then .error r.term else .ok r.term

/-- What is shown of a run: its terms, one to a line. -/
def lines (r : Run) : List String :=
  ("   " ++ r.start.text) :: r.later.map fun t => "-> " ++ t.text

end Run

/-- What is said about a stuck term. -/
def stuckMessage (t : Term) : Except Fault String := do
  return "No step available, not a value: " ++ (← t.pretty)

/-- Why an evaluation has no result. -/
inductive EvalError where
  /-- The run could go on after `limit` steps; `run` is what there is of it. -/
  | outOfFuel (limit : Nat) (run : Run)
  /-- A run without a limit went beyond the horizon. -/
  | unfinished (run : Run)
  | fault (f : Fault)
deriving DecidableEq

/-- What is said about a run that reached its limit. -/
def outOfFuelMessage (limit : Nat) : String :=
  "Evaluation did not finish within " ++ toString limit ++ " steps"

/-- The terms that come after `t` in at most `n` steps, and whether there is no step after them. -/
def Term.walk : Nat → Term → Except Fault (List Term × Bool)
  | n, t =>
    match t.step with
    | .error f => .error f
    | .ok none => .ok ([], true)
    | .ok (some t') =>
      match n with
      | 0 => .ok ([], false)
      | n + 1 =>
        match t'.walk n with
        | .error f => .error f
        | .ok (ts, done) => .ok (t' :: ts, done)

/-- Runs a term. -/
def Term.evaluate (limit : Limit) (t : Term) : Except EvalError Run :=
  match t.walk limit.reach with
  | .error f => .error (.fault f)
  | .ok (ts, true) => .ok ⟨t, ts⟩
  | .ok (ts, false) =>
    match limit with
    | .atMost n => .error (.outOfFuel n ⟨t, ts⟩)
    | .unlimited _ => .error (.unfinished ⟨t, ts⟩)

/-- Runs a value, which has to be a term. -/
def Value.evaluate (limit : Limit) : Value → Except EvalError Run
  | .node (.term t) => t.evaluate limit
  | v => .error (.fault (.notTerm v))

/-- Runs a value and shows the run line by line as far as it goes. -/
def Value.evaluateAloud (limit : Limit) (v : Value) : List String × Except EvalError Run :=
  match v.pretty with
  | .error f => ([], .error (.fault f))
  | .ok first =>
    match v.evaluate limit with
    | .ok r => (r.lines ++ (if r.stuck then ["   (stuck)"] else []), .ok r)
    | .error (.outOfFuel m r) => (r.lines, .error (.outOfFuel m r))
    | .error (.unfinished r) => (r.lines, .error (.unfinished r))
    | .error (.fault f) => (["   " ++ first], .error (.fault f))

end RecordLambda
