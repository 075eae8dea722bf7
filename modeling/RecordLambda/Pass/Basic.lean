import RecordLambda.Pass.Script

/-!
# Passes

A pass is an analysis, which comes to an analysis object, or a transform, which comes to a node. It
is made of layers, the latest first: each layer has handlers for some forms of nodes and hands on to
the layer below what it has no handler and no fallback for. Below all layers an analysis gives the
results of the children and a transform rebuilds the node.

Visits start at the latest layer. With a memo a layer first looks for the node among those noted in
this run, and notes the result when it is done. All layers share the memo, so an analysis finds a
node already noted when the layer below handled it, which is an error; a transform then notes it
again.

The root may also be something that is no node. No handler is for it, so the fallbacks take it.
-/

namespace RecordLambda

/-- What a pass comes to. -/
inductive PassKind where
  | analysis
  | transform
deriving DecidableEq

/-- A script for the nodes of some forms. -/
structure Handler where
  /-- How the handler is called in the log. -/
  label : String
  forms : List Form
  body : Node → Script

/-- How a layer is run on the root. -/
inductive RunMode where
  /-- Visits the root and puts the result into an object of a further kind. -/
  | collect (name : String)
  /-- Gives the result of visiting the root. -/
  | visit
  /-- Does what the layer below does. -/
  | inherit
  /-- Gives a fixed value. -/
  | const (v : Value)

/-- One layer of a pass. What it leaves open is taken from the layers below. -/
structure Layer where
  /-- How the layer is called where a pass is announced. -/
  name : String
  /-- How the layer is called in messages. -/
  title : String
  handlers : List Handler
  fallback : Option (Value → Script)
  run : Option RunMode
  memo : Option Bool
  requires : Option (List Kind)

/-- A pass, its latest layer first. -/
structure Pass where
  kind : PassKind
  layers : List Layer

namespace Pass

/-- The name of a pass: that of its latest layer. -/
def name (p : Pass) : String := (p.layers.head?.map Layer.name).getD ""

/-- What a pass is called in messages. -/
def title (p : Pass) : String := (p.layers.head?.map Layer.title).getD ""

/-- Whether results are noted. They are, unless a layer says otherwise. -/
def memo (p : Pass) : Bool := (p.layers.findSome? Layer.memo).getD true

/-- The kinds of objects that a pass requires. -/
def requires (p : Pass) : List Kind := (p.layers.findSome? Layer.requires).getD []

end Pass

/-- The handler of a layer for a form: the one for the nearest form on the line upwards, and of
several the latest. -/
def Layer.handlerFor (l : Layer) (f : Form) : Option Handler :=
  f.line.findSome? fun g => (l.handlers.filter (·.forms.contains g)).getLast?

/-- What the handlers of a layer do with a value, and how that is called in the log. -/
def Layer.handled (l : Layer) : Value → Option (String × Script)
  | .node n => (l.handlerFor n.form).map fun h => (h.label, h.body n)
  | _ => none

/-- What a layer itself does with a value, and how that is called in the log. -/
def Layer.scriptFor (l : Layer) (v : Value) : Option (String × Script) :=
  (l.handled v).or (l.fallback.map fun body => ("visit", body v))

/-- What is done with a value below all layers. -/
def PassKind.base : PassKind → Value → Script
  | analysis, v => Script.children v
  | transform, v => Script.rebuild v id

/-! ## Visiting -/

/-- The calls of handlers in order: how the handler is called, and the kind of what it was called
on. -/
abbrev Log := List (String × String)

/-- The results noted in a run, the latest first, and the handlers that were called. -/
structure Visits where
  noted : List (Value × Value)
  log : Log

/-- A computation that visits nodes. -/
abbrev VisitM (α : Type) := ExceptT PassError (StateM Visits) α

namespace VisitM

/-- The result noted for a value. -/
def noted? (v : Value) : VisitM (Option Value) := do
  return (← get).noted.lookup v

/-- Notes the result for a value. -/
def note (v result : Value) : VisitM Unit :=
  modify fun s => { s with noted := (v, result) :: s.noted }

/-- Enters the call of a handler into the log. -/
def enter (label : String) (v : Value) : VisitM Unit :=
  modify fun s => { s with log := s.log ++ [(label, v.kindName)] }

end VisitM

/-- Does what a script says, where `self` is how to visit. -/
def Script.exec (self : Value → VisitM Value) : Script → VisitM Value
  | done v => return v
  | fail e => throw e
  | visit n k => do
    let v ← self n
    (k v).exec self

namespace Pass

/-- Notes the result of a layer. An analysis does not note a value twice. -/
def keep (p : Pass) (v result : Value) : VisitM Value := do
  if p.memo then
    if p.kind == .analysis && (← VisitM.noted? v).isSome then throw .noted
    VisitM.note v result
  return result

/-- Visits a value from a layer on. The visits are followed down to a depth. -/
def visitFrom (p : Pass) : Nat → List Layer → Value → VisitM Value
  | 0, _, _ => throw .tooDeep
  | depth + 1, [], v => (p.kind.base v).exec (p.visitFrom depth p.layers)
  | depth + 1, l :: below, v => do
    let known ← if p.memo then VisitM.noted? v else pure none
    match known with
    | some result => return result
    | none =>
      let result ← match l.scriptFor v with
        | some (label, script) => do
          VisitM.enter label v
          script.exec (p.visitFrom depth p.layers)
        | none => p.visitFrom depth below v
      p.keep v result

/-- Visits a value. -/
def visit (p : Pass) (depth : Nat) (v : Value) : VisitM Value :=
  p.visitFrom depth p.layers v

/-- A depth that no visits of children exceed. -/
def depthFor (p : Pass) (v : Value) : Nat :=
  v.size * (p.layers.length + 1) + 1

/-! ## Running -/

/-- What running the layers comes to. -/
inductive Yield where
  | object (o : Object)
  | value (v : Value)

/-- Runs a pass from a layer on. -/
def runFrom (p : Pass) (depth : Nat) : List Layer → Value → VisitM Yield
  | [], v =>
    match p.kind with
    | .analysis => throw .noRun
    | .transform => return .value (← p.visit depth v)
  | l :: below, v =>
    match l.run with
    | none | some .inherit => p.runFrom depth below v
    | some (.collect name) => return .object (.custom name (← p.visit depth v))
    | some .visit => return .value (← p.visit depth v)
    | some (.const c) => return .value c

end Pass

/-- The objects that are required have to be of analysis kinds, and to be there. -/
def ensure (title : String) (requires : List Kind) (c : Context) : Except PassError Unit :=
  match requires.find? fun k => !k.isAnalysis with
  | some k => .error (.plainKind title k)
  | none =>
    match requires.filter fun k => !c.contains k with
    | [] => .ok ()
    | ks => .error (.unmet title ks)

/-- What a pass comes to. -/
inductive Product where
  | object (o : Object)
  | node (n : Node)

namespace Pass

/-- An analysis has to come to an object, a transform to a node. -/
def accept (p : Pass) : Yield → Except PassError Product
  | .object o =>
    match p.kind with
    | .analysis => .ok (.object o)
    | .transform => .error (.noNode p.title)
  | .value v =>
    match p.kind, v with
    | .transform, .node n => .ok (.node n)
    | .transform, _ => .error (.noNode p.title)
    | .analysis, v =>
      match v.display with
      | .ok s => .error (.noObject p.title s)
      | .error f => .error (.fault f)

/-- Runs a pass on a root, with nothing noted at first. The log is there also if the pass fails. -/
def runTo (p : Pass) (depth : Nat) (v : Value) (c : Context) : Except PassError Product × Log :=
  match ensure p.title p.requires c with
  | .error e => (.error e, [])
  | .ok () =>
    match (ExceptT.run (p.runFrom depth p.layers v)).run ⟨[], []⟩ with
    | (.error e, s) => (.error e, s.log)
    | (.ok y, s) => (p.accept y, s.log)

/-- Runs a pass that only visits the children of a node from that node. -/
def run (p : Pass) (v : Value) (c : Context) : Except PassError Product × Log :=
  p.runTo (p.depthFor v) v c

end Pass

end RecordLambda
