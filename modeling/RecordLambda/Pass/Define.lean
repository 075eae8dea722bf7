import RecordLambda.Pass.Basic
import RecordLambda.Pass.Hint

/-!
# Defining passes

A pass is defined by declaring its handlers one by one and then making its latest layer on top of a
base. A handler names its forms, or they are read off a hint at its parameter. A handler whose forms
are known waits under the name of the pass until a pass of that name is made; the pass takes all
that wait under its name. So handlers declared for a pass that is then refused are taken by the next
pass of the same name.
-/

namespace RecordLambda

/-- A handler as it is declared. -/
structure Declaration where
  label : String
  body : Node → Script
  /-- The forms that are named. If there are none, the hint counts. -/
  forms : List Form
  hint : Option Hint
  /-- Whether there is a parameter for the node. -/
  takesNode : Bool
  /-- Whether the names outside the hint can be looked up. If not, none is. -/
  resolves : Bool

/-- Why a pass cannot be defined. -/
inductive DefineError where
  /-- The base is not defined. -/
  | noBase
  /-- A handler has no parameter for the node. -/
  | noParameter (pass : String)
  /-- A handler has neither forms nor a hint. -/
  | noHint (pass : String)
  /-- The hint of a handler gives no forms. -/
  | noForms (pass : String)
  /-- The call of a pass is not to be changed. -/
  | changesCall
  /-- An analysis has to say how it is run. -/
  | noRun

/-- What is said about a refused definition. -/
def DefineError.message : DefineError → String
  | noBase => ""
  | noParameter pass => pass ++ "._ must have (self, node)"
  | noHint pass => "@handles couldn't infer types for " ++ pass ++ "._; annotate the 2nd param"
  | noForms pass => "@handles on " ++ pass ++ "._ resolved no concrete types"
  | changesCall => "Cannot override __call__"
  | noRun => "Must override run"

/-- The forms of a handler that is declared for a pass. -/
def Declaration.resolve (d : Declaration) (pass : String) (scope : String → Option Form) :
    Except DefineError (List Form) :=
  if !d.forms.isEmpty then .ok d.forms
  else if !d.takesNode then .error (.noParameter pass)
  else
    let lookedUp := d.resolves && d.hint.all (Hint.resolves scope)
    match d.hint with
    | none => .error (.noHint pass)
    | some h =>
      if !lookedUp && h.isNothing then .error (.noHint pass) else
      match h.forms (if lookedUp then some scope else none) with
      | [] => .error (.noForms pass)
      | fs => .ok fs

/-- What a new pass is made on. -/
inductive Base where
  | kind (k : PassKind)
  | defined (name : String)

/-- The definition of a pass. -/
structure Definition where
  name : String
  title : String
  base : Base
  declarations : List Declaration
  changesCall : Bool
  fallback : Option (Value → Script)
  run : Option RunMode
  memo : Option Bool
  requires : Option (List Kind)

/-- The handlers that wait under the names of passes, and the passes made so far. -/
structure Registry where
  waiting : OrderedMap String (List Handler)
  passes : OrderedMap String Pass

namespace Registry

/-- Nothing waits and nothing is made. -/
def empty : Registry := ⟨∅, ∅⟩

/-- The handlers that wait under a name. -/
def waitingFor (r : Registry) (name : String) : List Handler :=
  (r.waiting.get? name).getD []

/-- Lets the declared handlers wait under a name, up to the first that is refused. -/
def declare (scope : String → Option Form) (name : String) :
    Registry → List Declaration → Registry × Option DefineError
  | r, [] => (r, none)
  | r, d :: ds =>
    match d.resolve name scope with
    | .error e => (r, some e)
    | .ok forms =>
      let h : Handler := ⟨d.label, forms, d.body⟩
      declare scope name { r with waiting := r.waiting.insert name (r.waitingFor name ++ [h]) } ds

/-- The pass that a base stands for. -/
def baseOf (r : Registry) : Base → Option Pass
  | .kind k => some ⟨k, []⟩
  | .defined name => r.passes.get? name

/-- Makes a pass of the handlers that wait under its name. -/
def make (r : Registry) (base : Pass) (d : Definition) : Registry :=
  let layer : Layer := ⟨d.name, d.title, r.waitingFor d.name, d.fallback, d.run, d.memo, d.requires⟩
  ⟨r.waiting.insert d.name [], r.passes.insert d.name ⟨base.kind, layer :: base.layers⟩⟩

/-- Defines a pass. A refused definition leaves its handlers waiting. -/
def define (scope : String → Option Form) (r : Registry) (d : Definition) :
    Registry × Option DefineError :=
  match r.baseOf d.base with
  | none => (r, some .noBase)
  | some base =>
    match r.declare scope d.name d.declarations with
    | (r, some e) => (r, some e)
    | (r, none) =>
      if d.changesCall then (r, some .changesCall)
      else if base.kind == .analysis && d.run.isNone then (r, some .noRun)
      else (r.make base d, none)

end Registry

end RecordLambda
