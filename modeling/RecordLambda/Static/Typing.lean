import RecordLambda.Static.Env
import RecordLambda.Static.WellFormed
import RecordLambda.Syntax.Record

/-!
# Type inference

There is one rule for each term constructor, so a term has at most one type in a context. Subterms
are looked at from left to right, and the first one without a type is to blame:

- a variable has its declared type, which has to be well formed;
- an abstraction needs a well-formed annotation;
- an application needs a function whose domain is exactly the type of the argument;
- a projection needs the label in the type of the record;
- a cell needs a rest that is a record term and has a record type.
-/

namespace RecordLambda

/-- Why a term has no type. -/
inductive Cause where
  | unbound (x : String)
  /-- A variable that is declared with an ill-formed type. -/
  | declared (x : String) (T : Ty)
  /-- A parameter with an ill-formed annotation. -/
  | annotated (x : String) (T : Ty)
  /-- The function of an application has the type `T`, which is no arrow. -/
  | notFunction (T : Ty)
  /-- The argument has the type `A`, the parameter the type `P`. -/
  | argument (A P : Ty)
  /-- The type `T` has no such field. -/
  | noField (label : String) (T : Ty)
  /-- The rest of a record has the type `T`, which is no record type. -/
  | restType (T : Ty)
  /-- The rest of a record is no record term. -/
  | restTerm
deriving DecidableEq

namespace Cause

/-- The types that the message shows. -/
def types : Cause → List Ty
  | declared _ T | annotated _ T | notFunction T | noField _ T | restType T => [T]
  | argument A P => [A, P]
  | unbound _ | restTerm => []

/-- What is said about a term without a type. -/
def message : Cause → String
  | unbound x => "Unbound variable " ++ x
  | declared x T => "Variable " ++ x ++ " has ill-formed type " ++ T.text
  | annotated x T => "Parameter " ++ x ++ " has ill-formed type " ++ T.text
  | notFunction T => "Applying a non-function of type " ++ T.text
  | argument A P => "Argument type " ++ A.text ++ " does not match parameter type " ++ P.text
  | noField l T => "No field " ++ l ++ " in " ++ T.text
  | restType T => "Record tail has non-record type " ++ T.text
  | restTerm => "Record tail is not a record term"

end Cause

/-- The failure of type inference. -/
inductive TypingError where
  /-- There is no type, and the term `t` is to blame. -/
  | illTyped (cause : Cause) (t : Term)
  /-- There is no type, since no rule is about this. -/
  | notTerm (got : Value)
  /-- A hole was met. -/
  | fault (f : Fault)
deriving DecidableEq

/-- What is said about a failed inference. -/
def TypingError.message : TypingError → String
  | illTyped cause _ => cause.message
  | notTerm got => "Cannot type non-term " ++ got.literal
  | fault f => f.message

/-- Blames a term. If the types that the message shows cannot be written, that is a fault
instead. -/
def blame (cause : Cause) (t : Term) : TypingError :=
  match cause.types.findSome? Ty.firstHole? with
  | some f => .fault (.unwritable f)
  | none => .illTyped cause t

/-- A type has to be well formed, or else there is the error `e`. -/
def Ty.requireWellFormed (T : Ty) (e : TypingError) : Except TypingError Unit :=
  match T.wellFormed with
  | .ok true => .ok ()
  | .ok false => .error e
  | .error f => .error (.fault f)

/-! ## The rules -/

/-- A variable has its declared type. -/
def Ty.ofVar (Γ : Env) (x : String) : Except TypingError Ty :=
  match Γ.get? x with
  | none => .error (blame (.unbound x) (.var x))
  | some T => do
    T.requireWellFormed (blame (.declared x T) (.var x))
    return T

/-- The application `t` of something of type `F` to something of type `A`. -/
def Ty.ofApp (t : Term) (F A : Ty) : Except TypingError Ty :=
  match F with
  | .arrow P B => if P = A then .ok B else .error (blame (.argument A P) t)
  | _ => .error (blame (.notFunction F) t)

/-- The projection `t` of a field out of something of type `R`. -/
def Ty.ofProj (t : Term) (l : String) (R : Ty) : Except TypingError Ty :=
  match R.lookup l with
  | some A => .ok A
  | none => .error (blame (.noField l R) t)

/-- The cell `t` of a value of type `A` before the rest `r` of type `R`. -/
def Ty.ofCell (t : Term) (l : String) (A : Ty) (r : Term) (R : Ty) : Except TypingError Ty :=
  if !R.isRecord then .error (blame (.restType R) t)
  else if !r.isRecord then .error (blame .restTerm t)
  else .ok (.cell l A R)

/-- The type of a term in a context. -/
def Term.infer (Γ : Env) : Term → Except TypingError Ty
  | .var x => Ty.ofVar Γ x
  | .app f a => do
    let F ← f.infer Γ
    let A ← a.infer Γ
    Ty.ofApp (.app f a) F A
  | .abs x A b => do
    A.requireWellFormed (blame (.annotated x A) (.abs x A b))
    let B ← b.infer (Γ.insert x A)
    return .arrow A B
  | .proj r l => do
    let R ← r.infer Γ
    Ty.ofProj (.proj r l) l R
  | .empty => .ok .empty
  | .cell l v r => do
    let A ← v.infer Γ
    let R ← r.infer Γ
    Ty.ofCell (.cell l v r) l A r R
  | .hole => .error (.notTerm Term.hole)

/-- The type of a value in a context. Only terms have one. -/
def Value.infer (Γ : Env) : Value → Except TypingError Ty
  | .node (.term t) => t.infer Γ
  | v => .error (.notTerm v)

/-- The type that was inferred, if there is one. A fault stays a fault. -/
def typeIfAny : Except TypingError Ty → Except Fault (Option Ty)
  | .ok T => .ok (some T)
  | .error (.fault f) => .error f
  | .error _ => .ok none

/-- The type of a term in a context, if it has one. -/
def Term.hasType (Γ : Env) (t : Term) : Except Fault (Option Ty) := typeIfAny (t.infer Γ)

/-- The type of a value in a context, if it has one. -/
def Value.hasType (Γ : Env) (v : Value) : Except Fault (Option Ty) := typeIfAny (v.infer Γ)

end RecordLambda
