import RecordLambda.Dynamic.Eval
import RecordLambda.Static.Env

/-!
# Contexts of passes

A context holds the objects that passes need and produce, one of each kind, in the order in which
the kinds first came. Most kinds are those of the analyses of this library; others may be added by
name. An object of a plain kind is no result of an analysis, and no pass may require one.
-/

namespace RecordLambda

/-- The kind of an object. -/
inductive Kind where
  | typeEnv
  | limit
  | substitution
  | varSet
  | typing
  | run
  | step
  | wellFormed
  | text
  /-- A further kind of analysis object. -/
  | custom (name : String)
  /-- A kind of plain object. -/
  | plain (name : String)
deriving DecidableEq

namespace Kind

/-- The name by which a kind is shown. -/
def name : Kind → String
  | typeEnv => "TypeEnvObj"
  | limit => "Fuel"
  | substitution => "SubMapping"
  | varSet => "VarSet"
  | typing => "TypeCheckResult"
  | run => "EvalResult"
  | step => "StepResult"
  | wellFormed => "WellFormedResult"
  | text => "PrettyPrintedExpr"
  | custom name | plain name => name

/-- Whether the objects of a kind are analysis objects. -/
def isAnalysis : Kind → Bool
  | plain _ => false
  | _ => true

end Kind

/-- An object that passes need or produce. -/
inductive Object where
  | typeEnv (Γ : Env)
  | limit (l : Limit)
  | substitution (s : Substitution)
  | varSet (names : List String)
  | typing (T : Ty)
  | run (r : Run)
  | step (t : Option Term)
  | wellFormed (ok : Bool)
  | text (s : String)
  | custom (name : String) (v : Value)
  | plain (name : String) (v : Value)

/-- The kind of an object. -/
def Object.kind : Object → Kind
  | typeEnv _ => .typeEnv
  | limit _ => .limit
  | substitution _ => .substitution
  | varSet _ => .varSet
  | typing _ => .typing
  | run _ => .run
  | step _ => .step
  | wellFormed _ => .wellFormed
  | text _ => .text
  | custom name _ => .custom name
  | plain name _ => .plain name

/-- The objects at hand, one of each kind. -/
abbrev Context := OrderedMap Kind Object

/-- Why a context refuses a request. -/
inductive ContextError where
  /-- There is an object of the kind, and it was not to be replaced. -/
  | present (k : Kind)
  /-- There is no object of the kind, and no default was given. -/
  | absent (k : Kind)
  /-- More than one default was given. -/
  | defaults

/-- What is said about a refused request, where `shown` is the full name of a kind. -/
def ContextError.message (shown : Kind → String) : ContextError → String
  | present k => "Context already contains " ++ shown k
  | absent k => "Context does not contain " ++ shown k
  | defaults => "Only one default"

namespace Context

/-- Adds an object in place of the one of its kind. -/
def put (c : Context) (o : Object) : Context := c.insert o.kind o

/-- The context of some objects. -/
def ofObjects (os : List Object) : Context := os.foldl put ∅

/-- Adds an object; one of its kind is in the way unless it may be replaced. -/
def add (c : Context) (o : Object) (replace : Bool) : Except ContextError Context :=
  if !replace && c.contains o.kind then .error (.present o.kind) else .ok (put c o)

/-- The object of a kind, or a default if one was given. -/
def fetch {δ : Type} (c : Context) (k : Kind) (defaults : List δ) :
    Except ContextError (Object ⊕ δ) :=
  match defaults with
  | _ :: _ :: _ => .error .defaults
  | _ =>
    match c.get? k, defaults with
    | some o, _ => .ok (.inl o)
    | none, [] => .error (.absent k)
    | none, d :: _ => .ok (.inr d)

/-- The objects in order. -/
def objects (c : Context) : List Object := c.entries.map Prod.snd

end Context

end RecordLambda
