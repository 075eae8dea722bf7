import RecordLambda.Static.Typing

/-!
# Type maps

A term may share subterms: the same object can stand at several positions. A type map notes for
every object of a term the type that was found for it. Every position is noted after the positions
below it, from left to right, so an object that stands at several positions keeps the type found at
the last of them.
-/

namespace RecordLambda

/-- A term as a graph: every node carries the identity of the object that stands there. -/
inductive Graph where
  | var (id : Nat) (name : String)
  | app (id : Nat) (fn arg : Graph)
  | abs (id : Nat) (param : String) (dom : Ty) (body : Graph)
  | proj (id : Nat) (record : Graph) (label : String)
  | empty (id : Nat)
  | cell (id : Nat) (label : String) (value rest : Graph)
  | hole (id : Nat)
deriving DecidableEq

/-- The types noted for the objects of a graph. -/
abbrev TypeMap := OrderedMap Nat Ty

namespace Graph

/-- The identity of the object at the root. -/
def id : Graph → Nat
  | var i _ | app i _ _ | abs i _ _ _ | proj i _ _ | empty i | cell i _ _ _ | hole i => i

/-- The term that a graph depicts. -/
def term : Graph → Term
  | var _ x => .var x
  | app _ f a => .app f.term a.term
  | abs _ x A b => .abs x A b.term
  | proj _ r l => .proj r.term l
  | empty _ => .empty
  | cell _ l v r => .cell l v.term r.term
  | hole _ => .hole

/-- The graphs at all positions of a graph, from the root down and from left to right. -/
def positions : Graph → List Graph
  | g@(app _ f a) => g :: (f.positions ++ a.positions)
  | g@(abs _ _ _ b) => g :: b.positions
  | g@(proj _ r _) => g :: r.positions
  | g@(cell _ _ v r) => g :: (v.positions ++ r.positions)
  | g => [g]

/-- Infers the type of a graph and adds the types of its objects to the map. -/
def note (Γ : Env) : Graph → TypeMap → Except TypingError (Ty × TypeMap)
  | var i x, m => do
    let T ← Ty.ofVar Γ x
    return (T, m.insert i T)
  | g@(app i f a), m => do
    let (F, m) ← f.note Γ m
    let (A, m) ← a.note Γ m
    let T ← Ty.ofApp g.term F A
    return (T, m.insert i T)
  | g@(abs i x A b), m => do
    A.requireWellFormed (blame (.annotated x A) g.term)
    let (B, m) ← b.note (Γ.insert x A) m
    return (.arrow A B, m.insert i (.arrow A B))
  | g@(proj i r l), m => do
    let (R, m) ← r.note Γ m
    let T ← Ty.ofProj g.term l R
    return (T, m.insert i T)
  | empty i, m => .ok (.empty, m.insert i .empty)
  | g@(cell i l v r), m => do
    let (A, m) ← v.note Γ m
    let (R, m) ← r.note Γ m
    let T ← Ty.ofCell g.term l A r.term R
    return (T, m.insert i T)
  | hole _, _ => .error (.notTerm Term.hole)

/-- The type of a graph and the types of all its objects. -/
def typeMap (Γ : Env) (g : Graph) : Except TypingError (Ty × TypeMap) :=
  g.note Γ ∅

/-- The graph with an object of identity `id` at the root, built from the form and fields of a node
and the graphs of its children. -/
def build (id : Nat) (n : Node) (children : List Graph) : Option Graph :=
  match n, children with
  | .term (.var x), [] => some (var id x)
  | .term (.app ..), [f, a] => some (app id f a)
  | .term (.abs x A _), [b] => some (abs id x A b)
  | .term (.proj _ l), [r] => some (proj id r l)
  | .term .empty, [] => some (empty id)
  | .term (.cell l _ _), [v, r] => some (cell id l v r)
  | .term .hole, [] => some (hole id)
  | _, _ => none

end Graph

end RecordLambda
