import RecordLambda.Pass.Basic
import RecordLambda.Static.FreeVars

/-!
# Running passes in a row

The analyses of this library and substitution are passes too. A row of passes is run on a root: the
object of an analysis goes into the context, the node of a transform is the root for the passes
after it. The first pass that fails ends the row.
-/

namespace RecordLambda

/-- The passes of this library. -/
inductive BuiltIn where
  | wellFormedness
  | freeVars
  | typing
  | stepper
  /-- Evaluation, shown line by line if `aloud`. Without a limit in the context a run is followed up
  to the horizon. -/
  | evaluator (aloud : Bool) (horizon : Nat)
  | printer
  | substitution

namespace BuiltIn

/-- How a pass is called where it is announced. -/
def name : BuiltIn → String
  | wellFormedness => "WellFormednessPass"
  | freeVars => "FreeVarGetter"
  | typing => "TypeCheckingPass"
  | stepper => "Stepper"
  | evaluator .. => "EvalPass"
  | printer => "PrettyPrinterPass"
  | substitution => "SubstitutionPass"

/-- How a pass is called in messages. -/
def title : BuiltIn → String
  | wellFormedness => "well_formedness"
  | freeVars => "free_var_getter"
  | typing => "type_checking"
  | stepper => "step"
  | evaluator .. => "evaluator"
  | printer => "pretty_printer"
  | substitution => "substitution"

/-- The kinds of objects that a pass requires. -/
def requires : BuiltIn → List Kind
  | typing => [.typeEnv]
  | substitution => [.substitution]
  | _ => []

/-- The limit for evaluation in a context. -/
def limitIn (horizon : Nat) (c : Context) : Limit :=
  match c.get? .limit with
  | some (.limit l) => l
  | _ => .unlimited horizon

/-- The typing context for inference in a context. -/
def envIn (c : Context) : Env :=
  match c.get? .typeEnv with
  | some (.typeEnv Γ) => Γ
  | _ => ∅

/-- Runs a pass whose requirements are met. The lines are what it shows. -/
def body (b : BuiltIn) (v : Value) (c : Context) : List String × Except PassError Product :=
  match b with
  | wellFormedness => ([], (v.wellFormed.mapError .fault).map fun ok => .object (.wellFormed ok))
  | freeVars => ([], (v.freeVars.mapError .fault).map fun xs => .object (.varSet (sortNames xs)))
  | typing => ([], ((v.infer (envIn c)).mapError .typing).map fun T => .object (.typing T))
  | stepper => ([], (v.step.mapError .fault).map fun t => .object (.step t))
  | evaluator aloud horizon =>
    let (lines, r) :=
      if aloud then v.evaluateAloud (limitIn horizon c) else ([], v.evaluate (limitIn horizon c))
    (lines, (r.mapError .eval).map fun r => .object (.run r))
  | printer => ([], (v.pretty.mapError .fault).map fun s => .object (.text s))
  | substitution =>
    match c.get? .substitution with
    | some (.substitution s) =>
      ([], ((v.subst s.name s.replacement).mapError .fault).map fun n => .node n)
    | _ => ([], .error (.unmet substitution.title [.substitution]))

/-- Runs a pass. -/
def run (b : BuiltIn) (v : Value) (c : Context) : List String × Except PassError Product :=
  match ensure b.title b.requires c with
  | .error e => ([], .error e)
  | .ok () => b.body v c

end BuiltIn

/-- One pass in a row. -/
inductive Stage where
  | builtIn (b : BuiltIn)
  | defined (p : Pass)
  /-- Something that is no pass. -/
  | foreign (name : String)

/-- How a stage is called where it is announced. -/
def Stage.name : Stage → String
  | builtIn b => b.name
  | defined p => p.name
  | foreign name => name

/-- Runs a stage: the lines that it shows, the handlers that it calls, and what it comes to. -/
def Stage.run (s : Stage) (v : Value) (c : Context) :
    List String × Log × Except PassError Product :=
  match s with
  | builtIn b =>
    let (lines, r) := b.run v c
    (lines, [], r)
  | defined p =>
    let (r, log) := p.run v c
    ([], log, r)
  | foreign _ => ([], [], .error .notAPass)

/-- The announcement of a pass on a root. -/
def announce (name : String) (v : Value) : Except Fault String := do
  return "P: " ++ name ++ " on " ++ (← v.display)

/-- Where a row of passes stands: the context, the lines shown and the handlers called. -/
structure Session where
  context : Context
  lines : List String
  log : Log

/-- Runs stages in a row, announcing each if asked to. -/
def Session.run (verbose : Bool) : Session → List Stage → Value → Session × Except PassError Value
  | s, [], v => (s, .ok v)
  | s, st :: rest, v =>
    match if verbose then (announce st.name v).map ([·]) else .ok [] with
    | .error f => (s, .error (.fault f))
    | .ok title =>
      let (lines, log, r) := st.run v s.context
      let s : Session := { s with lines := s.lines ++ title ++ lines, log := s.log ++ log }
      match r with
      | .error e => (s, .error e)
      | .ok (.node m) => run verbose s rest m
      | .ok (.object o) => run verbose { s with context := Context.put s.context o } rest v

end RecordLambda
