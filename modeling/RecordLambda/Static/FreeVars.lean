import RecordLambda.Name
import RecordLambda.Syntax.Fault

/-!
# Free variables

Types have no variables, so only the terms contribute.
-/

namespace RecordLambda

/-- The free variables of a term, once for each free occurrence and from left to right. -/
def Term.freeVars : Term → List String
  | .var x => [x]
  | .app f a => f.freeVars ++ a.freeVars
  | .abs x _ b => b.freeVars.filter (· ≠ x)
  | .proj r _ => r.freeVars
  | .cell _ v r => v.freeVars ++ r.freeVars
  | .empty | .hole => []

/-- A term without free variables. -/
def Term.closed (t : Term) : Bool := t.freeVars.isEmpty

/-- The free variables of a node. -/
def Node.freeVars : Node → List String
  | .term t => t.freeVars
  | _ => []

/-- The free variables of a value, which has to be a node. -/
def Value.freeVars : Value → Except Fault (List String)
  | .node n => .ok n.freeVars
  | v => .error (.childless v)

/-! ## Membership

What is free in a term, constructor by constructor. -/

namespace Term

variable {w x y l : String} {A : Ty} {f a b v r t : Term}

@[simp]
theorem mem_freeVars_var : w ∈ (var x).freeVars ↔ w = x := List.mem_singleton

@[simp]
theorem mem_freeVars_app : w ∈ (app f a).freeVars ↔ w ∈ f.freeVars ∨ w ∈ a.freeVars :=
  List.mem_append

/-- A binder hides its own name and no other. -/
@[simp]
theorem mem_freeVars_abs : w ∈ (abs y A b).freeVars ↔ w ∈ b.freeVars ∧ w ≠ y := by
  simp [freeVars]

@[simp]
theorem mem_freeVars_proj : w ∈ (proj r l).freeVars ↔ w ∈ r.freeVars := Iff.rfl

@[simp]
theorem not_mem_freeVars_empty : w ∉ empty.freeVars := List.not_mem_nil

@[simp]
theorem mem_freeVars_cell : w ∈ (cell l v r).freeVars ↔ w ∈ v.freeVars ∨ w ∈ r.freeVars :=
  List.mem_append

@[simp]
theorem not_mem_freeVars_hole : w ∉ hole.freeVars := List.not_mem_nil

/-- A closed term is one without free variables. -/
theorem closed_iff : t.closed ↔ ∀ x, x ∉ t.freeVars := by
  rw [closed, List.isEmpty_iff, List.eq_nil_iff_forall_not_mem]

end Term

end RecordLambda
