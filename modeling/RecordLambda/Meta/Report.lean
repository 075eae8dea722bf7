import RecordLambda.Syntax.Pretty

/-!
# Reports

A report counts the checks that were made and keeps those that failed.
-/

namespace RecordLambda

/-- A failed check: the property, what it fails at, and what else is to be said. -/
structure Counterexample where
  property : String
  value : Value
  detail : String

/-- The text of a failed check. -/
def Counterexample.pretty (c : Counterexample) : Except Fault String := do
  let detail := if c.detail.isEmpty then "" else " (" ++ c.detail ++ ")"
  return c.property ++ " fails on " ++ (← c.value.pretty) ++ detail

/-- One check with its verdict. -/
structure Check where
  property : String
  verdict : Except Fault Bool
  value : Value
  detail : String

/-- The number of checks and those that failed. -/
structure Report where
  checked : Int
  counterexamples : List Counterexample

namespace Report

/-- No checks yet. -/
def empty : Report := ⟨0, []⟩

/-- No check failed. -/
def ok (r : Report) : Bool := r.counterexamples.isEmpty

/-- Enters the outcome of one check. -/
def enter (r : Report) (property : String) (holds : Bool) (value : Value) (detail : String) :
    Report :=
  ⟨r.checked + 1,
    if holds then r.counterexamples else r.counterexamples ++ [⟨property, value, detail⟩]⟩

/-- Enters the checks one by one until a verdict is a fault. The checks before it are kept. -/
def enterAll : Report → List Check → Report × Option Fault
  | r, [] => (r, none)
  | r, c :: cs =>
    match c.verdict with
    | .ok holds => enterAll (r.enter c.property holds c.value c.detail) cs
    | .error f => (r, some f)

/-- Two reports in one. -/
def merge (r s : Report) : Report :=
  ⟨r.checked + s.checked, r.counterexamples ++ s.counterexamples⟩

/-- The text of a report. -/
def pretty (r : Report) : Except Fault String := do
  if r.ok then return toString r.checked ++ " checks passed"
  let failures ← r.counterexamples.mapM fun c => do return "  " ++ (← c.pretty)
  let title :=
    toString r.counterexamples.length ++ " of " ++ toString r.checked ++ " checks failed:"
  return "\n".intercalate (title :: failures)

end Report

end RecordLambda
