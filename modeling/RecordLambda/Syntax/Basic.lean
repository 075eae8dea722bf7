/-!
# Types, terms and nodes

A simply typed lambda calculus with records. A record, and likewise a record type, is a chain of
labelled cells that normally ends in the empty record; nothing in the syntax forces the rest of a
cell to be a record, so that is what well-formedness and typing are about. Labels may repeat along a
chain.

Each kind of syntax also has a `hole`: a placeholder that stands for an unspecified type, term or
node. A hole has no notation and no rule, and syntax without holes is called concrete.
-/

namespace RecordLambda

/-- Types: ground types, functions, and record types as chains of cells. -/
inductive Ty where
  /-- A ground type, known by its name only. -/
  | base (name : String)
  /-- Functions from `dom` to `cod`. -/
  | arrow (dom cod : Ty)
  /-- The empty record type. -/
  | empty
  /-- A cell of a record type: one labelled field before the `rest`. -/
  | cell (label : String) (field rest : Ty)
  /-- An unspecified type. -/
  | hole
deriving DecidableEq, Inhabited

/-- Terms: the lambda calculus with annotated binders, projection, and records as chains of
cells. -/
inductive Term where
  | var (name : String)
  | app (fn arg : Term)
  /-- The function of `param`, which has type `dom`. -/
  | abs (param : String) (dom : Ty) (body : Term)
  /-- The field `label` of `record`. -/
  | proj (record : Term) (label : String)
  /-- The empty record. -/
  | empty
  /-- A cell of a record: one labelled value before the `rest`. -/
  | cell (label : String) (value rest : Term)
  /-- An unspecified term. -/
  | hole
deriving DecidableEq, Inhabited

/-- A piece of syntax: a type, a term, or something of neither kind. -/
inductive Node where
  | ty (T : Ty)
  | term (t : Term)
  /-- An unspecified node. -/
  | hole
deriving DecidableEq, Inhabited

instance : Coe Ty Node := ⟨.ty⟩

instance : Coe Term Node := ⟨.term⟩

/-! ## Size -/

/-- The number of nodes of a type. -/
def Ty.size : Ty → Nat
  | .base _ | .empty | .hole => 1
  | .arrow A B => A.size + B.size + 1
  | .cell _ A R => A.size + R.size + 1

/-- The number of nodes of a term, those of its annotations included. -/
def Term.size : Term → Nat
  | .var _ | .empty | .hole => 1
  | .app f a => f.size + a.size + 1
  | .abs _ A b => A.size + b.size + 1
  | .proj r _ => r.size + 1
  | .cell _ v r => v.size + r.size + 1

/-- The number of nodes. -/
def Node.size : Node → Nat
  | .ty T => T.size
  | .term t => t.size
  | .hole => 1

/-! ## Concrete syntax -/

/-- A type without holes. -/
def Ty.concrete : Ty → Bool
  | .base _ | .empty => true
  | .arrow A B => A.concrete && B.concrete
  | .cell _ A R => A.concrete && R.concrete
  | .hole => false

/-- A term without holes, in its annotations either. -/
def Term.concrete : Term → Bool
  | .var _ | .empty => true
  | .app f a => f.concrete && a.concrete
  | .abs _ A b => A.concrete && b.concrete
  | .proj r _ => r.concrete
  | .cell _ v r => v.concrete && r.concrete
  | .hole => false

/-- A node without holes. -/
def Node.concrete : Node → Bool
  | .ty T => T.concrete
  | .term t => t.concrete
  | .hole => false

theorem Ty.concrete_arrow {A B : Ty} : (arrow A B).concrete ↔ A.concrete ∧ B.concrete :=
  Bool.and_eq_true_iff

theorem Ty.concrete_cell {l : String} {A R : Ty} :
    (cell l A R).concrete ↔ A.concrete ∧ R.concrete :=
  Bool.and_eq_true_iff

theorem Term.concrete_app {f a : Term} : (app f a).concrete ↔ f.concrete ∧ a.concrete :=
  Bool.and_eq_true_iff

theorem Term.concrete_abs {x : String} {A : Ty} {b : Term} :
    (abs x A b).concrete ↔ A.concrete ∧ b.concrete :=
  Bool.and_eq_true_iff

theorem Term.concrete_proj {r : Term} {l : String} : (proj r l).concrete ↔ r.concrete := Iff.rfl

theorem Term.concrete_cell {l : String} {v r : Term} :
    (cell l v r).concrete ↔ v.concrete ∧ r.concrete :=
  Bool.and_eq_true_iff

/-! ## Shapes -/

/-- A function type. -/
def Ty.isArrow : Ty → Bool
  | .arrow .. => true
  | _ => false

/-- Shaped like a record type on the outside: the empty one or a cell. -/
def Ty.isRecord : Ty → Bool
  | .empty | .cell .. => true
  | _ => false

/-- Shaped like a record on the outside: the empty one or a cell. -/
def Term.isRecord : Term → Bool
  | .empty | .cell .. => true
  | _ => false

/-- The type, if the node is one. -/
def Node.ty? : Node → Option Ty
  | .ty T => some T
  | _ => none

/-- The term, if the node is one. -/
def Node.term? : Node → Option Term
  | .term t => some t
  | _ => none

end RecordLambda
