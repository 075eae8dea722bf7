import RecordLambda.Pass.Manager
import RecordLambda.Static.Typing

/-!
# Programs

A program is a term with the context it is typed in. Running it infers its type first and evaluates
it then. Some programs with what is expected of them are known by name.
-/

namespace RecordLambda

/-- A term in a context, with its expected type and value. No expected type means that there is
none. -/
structure Program where
  name : String
  term : Term
  env : Env
  expectedType : Option Ty
  expectedValue : Option Term

namespace Program

/-- The identity function on a type. -/
def identity (x : String) (T : Ty) : Term := .abs x T (.var x)

/-- A ground type. -/
def A : Ty := .base "A"

/-- Another ground type. -/
def B : Ty := .base "B"

/-- A record type. -/
def recordTy (fields : List (String × Ty)) : Ty := Ty.ofFields fields .empty

/-- A record. -/
def record (fields : List (String × Term)) : Term := Term.ofFields fields .empty

/-- A function that projects a field, applied to a record. -/
def projectAfterApply : Program where
  name := "project_after_apply"
  term := .app
    (.abs "a" (recordTy [("i1", .arrow A A), ("i2", .arrow B B)]) (.proj (.var "a") "i2"))
    (record [("i1", identity "a" A), ("i2", identity "a" B)])
  env := ∅
  expectedType := some (.arrow B B)
  expectedValue := some (identity "a" B)

/-- A record whose rest is a variable, which is no record term. -/
def tailNotRecord : Program where
  name := "tail_not_record"
  term := .cell "i1" (identity "a" B) (.var "a")
  env := OrderedMap.ofList [("a", recordTy [("i2", .arrow A A)])]
  expectedType := none
  expectedValue := none

/-- An argument with more fields than the parameter. -/
def recordWidthMismatch : Program where
  name := "record_width_mismatch"
  term := .app
    (.abs "a" (recordTy [("i1", A)]) (.proj (.var "a") "i1"))
    (record [("i1", .var "y"), ("i2", .var "y")])
  env := OrderedMap.ofList [("y", A)]
  expectedType := none
  expectedValue := none

/-- An argument with the fields of the parameter in another order. -/
def recordOrderMismatch : Program where
  name := "record_order_mismatch"
  term := .app
    (.abs "a" (recordTy [("i1", .arrow A A), ("i2", .arrow B B)]) (.proj (.var "a") "i1"))
    (record [("i2", identity "b" B), ("i1", identity "b" A)])
  env := ∅
  expectedType := none
  expectedValue := none

/-- A projection out of a record. -/
def projectLiteral : Program where
  name := "project_literal"
  term := .proj (record [("i1", identity "a" A)]) "i1"
  env := ∅
  expectedType := some (.arrow A A)
  expectedValue := some (identity "a" A)

/-- A projection of a label that occurs twice. -/
def shadowedLabel : Program where
  name := "shadowed_label"
  term := .proj (record [("i1", identity "a" A), ("i1", identity "a" B)]) "i1"
  env := ∅
  expectedType := some (.arrow A A)
  expectedValue := some (identity "a" A)

/-- A function on a nested record, applied to a record with a redex in it. -/
def nestedRecord : Program where
  name := "nested_record"
  term := .app
    (.abs "r" (recordTy [("i1", recordTy [("i2", .arrow B B)])])
      (.proj (.proj (.var "r") "i1") "i2"))
    (record [("i1",
      .app (identity "x" (recordTy [("i2", .arrow B B)])) (record [("i2", identity "b" B)]))])
  env := ∅
  expectedType := some (.arrow B B)
  expectedValue := some (identity "b" B)

/-- A projection out of the empty record. -/
def missingField : Program where
  name := "missing_field"
  term := .proj .empty "i1"
  env := ∅
  expectedType := none
  expectedValue := none

/-- All named programs. -/
def all : List Program :=
  [projectAfterApply, tailNotRecord, recordWidthMismatch, recordOrderMismatch, projectLiteral,
   shadowedLabel, nestedRecord, missingField]

/-- The names of all programs, in ascending order. -/
def names : List String := sortNames (all.map Program.name)

/-- The program of a name. -/
def find? (name : String) : Option Program := all.find? (·.name == name)

/-- What is said when there is no program of a name. -/
def notFound (name : String) : String := "Program " ++ name ++ " not found"

end Program

/-- Announces a part of a run, if asked to, and does it unless it cannot be announced. -/
def announced {α : Type} (verbose : Bool) (name : String) (v : Value)
    (part : List String × Except PassError α) : List String × Except PassError α :=
  if verbose then
    match announce name v with
    | .error f => ([], .error (.fault f))
    | .ok line => (line :: part.1, part.2)
  else part

/-- Infers the type of a value in a context, then runs it. The lines are what is shown on the
way. -/
def Value.runProgram (Γ : Env) (limit : Limit) (verbose : Bool) (v : Value) :
    List String × Except PassError (Ty × Run) :=
  let typed := announced verbose BuiltIn.typing.name v ([], (v.infer Γ).mapError PassError.typing)
  match typed with
  | (lines, .error e) => (lines, .error e)
  | (lines, .ok T) =>
    let (more, r) := if verbose then v.evaluateAloud limit else ([], v.evaluate limit)
    let ran :=
      announced verbose (BuiltIn.evaluator verbose 0).name v (more, r.mapError PassError.eval)
    (lines ++ ran.1, ran.2.map fun r => (T, r))

end RecordLambda
