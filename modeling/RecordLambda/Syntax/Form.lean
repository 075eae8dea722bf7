import RecordLambda.Syntax.Basic

/-!
# Forms of nodes

Every node has a form, some text fields and some children. The forms make up a small hierarchy: each
one lies on a line that leads over the types or the terms up to the nodes.
-/

namespace RecordLambda

/-- The form of a node: the constructor that it is built by, or the kind that a hole stands for. -/
inductive Form where
  | baseTy | arrowTy | emptyTy | cellTy
  | var | app | abs | proj | empty | cell
  | ty | term | node
deriving DecidableEq

namespace Form

/-- All forms. -/
def all : List Form :=
  [baseTy, arrowTy, emptyTy, cellTy, var, app, abs, proj, empty, cell, ty, term, node]

/-- The name by which a form is shown. -/
def name : Form → String
  | baseTy => "BaseT"
  | arrowTy => "ArrowT"
  | emptyTy => "RecordEndT"
  | cellTy => "RecordFieldT"
  | var => "Var"
  | app => "App"
  | abs => "Abs"
  | proj => "Proj"
  | empty => "RecordEnd"
  | cell => "RecordField"
  | ty => "Type"
  | term => "Term"
  | node => "Node"

/-- The form that is shown by the name `s`. -/
def ofName? (s : String) : Option Form :=
  all.find? (·.name == s)

/-- The line from a form up to the form of all nodes, nearest first. -/
def line : Form → List Form
  | node => [node]
  | ty => [ty, node]
  | term => [term, node]
  | f@baseTy | f@arrowTy | f@emptyTy | f@cellTy => [f, ty, node]
  | f => [f, term, node]

end Form

/-- The form of a type. -/
def Ty.form : Ty → Form
  | .base _ => .baseTy
  | .arrow .. => .arrowTy
  | .empty => .emptyTy
  | .cell .. => .cellTy
  | .hole => .ty

/-- The form of a term. -/
def Term.form : Term → Form
  | .var _ => .var
  | .app .. => .app
  | .abs .. => .abs
  | .proj .. => .proj
  | .empty => .empty
  | .cell .. => .cell
  | .hole => .term

namespace Node

/-- The form of a node. -/
def form : Node → Form
  | .ty T => T.form
  | .term t => t.form
  | .hole => .node

/-- The text fields of a node, with their names. -/
def fields : Node → List (String × String)
  | .ty (.base x) | .term (.var x) => [("name", x)]
  | .term (.abs x _ _) => [("param", x)]
  | .ty (.cell l _ _) | .term (.proj _ l) | .term (.cell l _ _) => [("label", l)]
  | _ => []

/-- The children of a node, left to right. -/
def children : Node → List Node
  | .ty (.arrow A B) => [A, B]
  | .ty (.cell _ A R) => [A, R]
  | .term (.app f a) => [f, a]
  | .term (.abs _ A b) => [A, b]
  | .term (.proj r _) => [r]
  | .term (.cell _ v r) => [v, r]
  | _ => []

/-- A child is smaller than its parent. -/
theorem size_lt_of_mem_children {n c : Node} (h : c ∈ n.children) : c.size < n.size := by
  rcases n with T | t | _
  · cases T <;> simp [children] at h <;> rcases h with rfl | rfl <;>
      simp only [size, Ty.size] <;> omega
  · cases t <;> simp [children] at h
    case proj => subst h; simp [size, Term.size]
    all_goals rcases h with rfl | rfl <;> simp only [size, Term.size] <;> omega
  · simp [children] at h

end Node

end RecordLambda
