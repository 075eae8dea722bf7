import RecordLambda.Static.FreeVars
import RecordLambda.Syntax.Build

/-!
# Substitution

`t.subst x v` puts `v` for the free occurrences of `x` in `t`. A binder that would capture a free
variable of `v` is first renamed, to the fresh name with the fewest primes. The renaming is itself a
substitution, and it keeps the size of the term, which is what makes the recursion end.

Types have no variables and stay as they are.
-/

namespace RecordLambda

namespace Term

/-- A variable. -/
def isVar : Term → Bool
  | .var _ => true
  | _ => false

/-- Substitution together with the fact that putting a variable for a variable keeps the size. -/
def substSized (t : Term) (x : String) (v : Term) : { r : Term // v.isVar → r.size = t.size } :=
  match t with
  | .var y => if y = x then ⟨v, by cases v <;> simp [isVar, size]⟩ else ⟨.var y, fun _ => rfl⟩
  | .app f a =>
    ⟨.app (substSized f x v).1 (substSized a x v).1, fun h => by
      simp [size, (substSized f x v).2 h, (substSized a x v).2 h]⟩
  | .abs y A b =>
    if y = x ∨ x ∉ b.freeVars then ⟨.abs y A b, fun _ => rfl⟩
    else if y ∈ v.freeVars then
      let z := fresh y (v.freeVars ++ b.freeVars ++ [x])
      match substSized b y (.var z) with
      | ⟨b', same⟩ =>
        ⟨.abs z A (substSized b' x v).1, fun h => by simp [size, (substSized b' x v).2 h, same rfl]⟩
    else ⟨.abs y A (substSized b x v).1, fun h => by simp [size, (substSized b x v).2 h]⟩
  | .proj r l => ⟨.proj (substSized r x v).1 l, fun h => by simp [size, (substSized r x v).2 h]⟩
  | .empty => ⟨.empty, fun _ => rfl⟩
  | .cell l w r =>
    ⟨.cell l (substSized w x v).1 (substSized r x v).1, fun h => by
      simp [size, (substSized w x v).2 h, (substSized r x v).2 h]⟩
  | .hole => ⟨.hole, fun _ => rfl⟩
termination_by t.size
decreasing_by
  all_goals simp only [size]
  all_goals first | omega | exact (by have h := same rfl; omega)

/-- The term with `v` put for the free occurrences of `x`. -/
def subst (t : Term) (x : String) (v : Term) : Term := (t.substSized x v).1

/-- A renaming keeps the size. -/
theorem size_subst_var (t : Term) (x z : String) : (t.subst x (.var z)).size = t.size :=
  (t.substSized x (.var z)).2 rfl

/-- Substitution into a variable. -/
theorem subst_var (y x : String) (v : Term) : (var y).subst x v = if y = x then v else var y := by
  rw [subst, substSized]
  split <;> rfl

theorem subst_app (f a : Term) (x : String) (v : Term) :
    (app f a).subst x v = app (f.subst x v) (a.subst x v) := by
  rw [subst, substSized]; rfl

/-- Substitution into an abstraction: nothing happens if the binder hides the variable or the
variable does not occur; a binder that would catch a free variable of the value is renamed first. -/
theorem subst_abs (y : String) (A : Ty) (b : Term) (x : String) (v : Term) :
    (abs y A b).subst x v =
      if y = x ∨ x ∉ b.freeVars then abs y A b
      else if y ∈ v.freeVars then
        let z := fresh y (v.freeVars ++ b.freeVars ++ [x])
        abs z A ((b.subst y (var z)).subst x v)
      else abs y A (b.subst x v) := by
  rw [subst, substSized]
  split
  · rfl
  · split <;> rfl

theorem subst_proj (r : Term) (l x : String) (v : Term) :
    (proj r l).subst x v = proj (r.subst x v) l := by
  rw [subst, substSized]; rfl

theorem subst_empty (x : String) (v : Term) : empty.subst x v = empty := by
  rw [subst, substSized]

theorem subst_cell (l : String) (w r : Term) (x : String) (v : Term) :
    (cell l w r).subst x v = cell l (w.subst x v) (r.subst x v) := by
  rw [subst, substSized]; rfl

theorem subst_hole (x : String) (v : Term) : hole.subst x v = hole := by
  rw [subst, substSized]

end Term

/-- The node with `v` put for the free occurrences of `x`. -/
def Node.subst (n : Node) (x : String) (v : Term) : Node :=
  match n with
  | .term t => t.subst x v
  | n => n

/-- The node with `w` put for the free occurrences of `x`, of a value that has to be a node. -/
def Value.subst (v : Value) (x : String) (w : Term) : Except Fault Node :=
  match v with
  | .node n => .ok (n.subst x w)
  | v => .error (.childless v)

/-- A name and the term to put for it. -/
structure Substitution where
  name : String
  replacement : Term

/-- Something that is no term was to be put for a name. -/
structure ReplacementError where
  got : Value

/-- What is said about a refused replacement. -/
def ReplacementError.message (e : ReplacementError) : String :=
  "Can only substitute Terms, got " ++ e.got.literal

/-- The substitution of a value, which has to be a term, for a name. -/
def Substitution.of (x : String) (v : Value) : Except ReplacementError Substitution :=
  match v.term? with
  | some t => .ok ⟨x, t⟩
  | none => .error ⟨v⟩

end RecordLambda
