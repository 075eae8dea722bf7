import RecordLambda.Syntax.Value

/-!
# Building nodes

A node is built from a form, its fields and the values offered as its children. Only types go into
types, and only terms into terms, except for the annotation of an abstraction. The first child of
the wrong kind is to blame, and the number of children is checked before their kinds; a hole takes
any number of values and refuses them afterwards.
-/

namespace RecordLambda

/-- Why a node cannot be built. -/
inductive BuildError where
  /-- Too many or too few arguments, or one that the form does not know. -/
  | arity
  /-- A child that is no node. -/
  | notNode (got : Value)
  /-- Children in a hole. -/
  | childCount (expected got : Nat)
  /-- A child of a type form that is no type. -/
  | notType (form : Form) (got : Value)
  /-- A child of a term form that is no term. -/
  | notTerm (form : Form) (got : Value)
  /-- An annotation that is no type. -/
  | domain (got : Value)
deriving DecidableEq

/-- What is said about a failed construction. There is no word for a wrong number of arguments. -/
def BuildError.message : BuildError → Option String
  | arity => none
  | notNode got => some ("Expected Node, got " ++ got.plain)
  | childCount expected got => some s!"Expected {expected} children, got {got}"
  | notType form got => some (form.name ++ " children must be Types, got " ++ got.literal)
  | notTerm form got => some (form.name ++ " children must be Terms, got " ++ got.literal)
  | domain got => some ("Abs parameter type must be a Type, got " ++ got.literal)

namespace Form

/-- A child of the type form `f`. -/
def expectTy (f : Form) (v : Value) : Except BuildError Ty :=
  match v.ty? with
  | some T => .ok T
  | none => .error (.notType f v)

/-- A child of the term form `f`. -/
def expectTerm (f : Form) (v : Value) : Except BuildError Term :=
  match v.term? with
  | some t => .ok t
  | none => .error (.notTerm f v)

/-- The annotation of an abstraction. -/
def expectDomain (v : Value) : Except BuildError Ty :=
  match v.ty? with
  | some T => .ok T
  | none => .error (.domain v)

/-- The holes take no children: the first value of the wrong kind is refused, then any that are
left. -/
def buildHole (n : Node) (refuse : Value → Option BuildError) (vs : List Value) :
    Except BuildError Node :=
  match vs.findSome? refuse with
  | some e => .error e
  | none => if vs.isEmpty then .ok n else .error (.childCount 0 vs.length)

/-- Builds a node of a form from its fields and the values offered as its children. -/
def build : Form → List String → List Value → Except BuildError Node
  | baseTy, [x], [] => .ok (Ty.base x)
  | arrowTy, [], [a, b] => do
    let A ← expectTy arrowTy a
    let B ← expectTy arrowTy b
    return Ty.arrow A B
  | emptyTy, [], [] => .ok Ty.empty
  | cellTy, [l], [a, r] => do
    let A ← expectTy cellTy a
    let R ← expectTy cellTy r
    return Ty.cell l A R
  | var, [x], [] => .ok (Term.var x)
  | app, [], [f, a] => do
    let f ← expectTerm app f
    let a ← expectTerm app a
    return Term.app f a
  | abs, [x], [a, b] => do
    let A ← expectDomain a
    let b ← expectTerm abs b
    return Term.abs x A b
  | proj, [l], [r] => do
    let r ← expectTerm proj r
    return Term.proj r l
  | empty, [], [] => .ok Term.empty
  | cell, [l], [v, r] => do
    let v ← expectTerm cell v
    let r ← expectTerm cell r
    return Term.cell l v r
  | ty, [], vs =>
    buildHole Ty.hole (fun v => if v.ty?.isSome then none else some (.notType ty v)) vs
  | term, [], vs =>
    buildHole Term.hole (fun v => if v.node?.isSome then none else some (.notNode v)) vs
  | node, [], vs =>
    buildHole .hole (fun v => if v.node?.isSome then none else some (.notNode v)) vs
  | _, _, _ => .error .arity

end Form

namespace Node

/-- The value that an update gives to the field `k`, or `old`. -/
def updated (updates : List (String × String)) (k old : String) : String :=
  (updates.lookup k).getD old

/-- The node with some fields and its children exchanged. An update of a field that the node does
not have is offered as a further child in front of the others, except that a projection takes only
one by the name of its record, and then no other child. The name `self` means the node itself and is
never a field. The flag says that nothing changed. -/
def replace (n : Node) (updates : List (String × String)) (children : List Value) :
    Except BuildError (Node × Bool) := do
  if (updates.lookup "self").isSome then
    throw .arity
  let own := n.fields.map Prod.fst
  let fields := n.fields.map fun (k, old) => (k, updated updates k old)
  let extra := updates.filter fun (k, _) => !own.contains k
  if extra.isEmpty && fields == n.fields && Value.allSame children (n.children.map .node) then
    return (n, true)
  let byName := extra.map Prod.fst == ["record"] && children.isEmpty
  if n.form == .proj && !extra.isEmpty && !byName then
    throw .arity
  let m ← n.form.build (fields.map Prod.snd)
    (extra.map (fun (_, s) => .scalar (.text s)) ++ children)
  return (m, false)

end Node

end RecordLambda
