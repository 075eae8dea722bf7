import RecordLambda.Proofs.Dynamic.Subst

/-!
# Substitution terminates

When substitution renames a binder, it first calls itself to rename the body and then goes on in
what it got. That is no part of the term, so it is not obvious that the calls come to an end.

Renaming changes names and nothing else, whatever binders it has to rename on its way: the shape of
the term stays, `Substituted.shape_eq`, with all its annotations, and so does its size. Therefore
the target of every call is smaller than that of the call that makes it, and calls nested as deep as
the target has nodes are enough, `Term.substWithin_eq`. Unlike `Term.subst` itself,
`Term.substWithin` follows the rules without knowing any of this.
-/

namespace RecordLambda

namespace Term

/-! ## Shape -/

/-- The term with all its variables and binders under one name. What is left is the tree with its
labels and annotations. -/
def shape : Term → Term
  | var _ => var ""
  | app f a => app f.shape a.shape
  | abs _ A b => abs "" A b.shape
  | proj r l => proj r.shape l
  | empty => empty
  | cell l v r => cell l v.shape r.shape
  | hole => hole

/-- The annotations of the binders, from left to right. -/
def annotations : Term → List Ty
  | app f a => f.annotations ++ a.annotations
  | abs _ A b => A :: b.annotations
  | proj r _ => r.annotations
  | cell _ v r => v.annotations ++ r.annotations
  | var _ | empty | hole => []

/-- The shape has the size of the term. -/
lemma size_shape (t : Term) : t.shape.size = t.size := by
  induction t with
  | var _ => rfl
  | app f a ihf iha => simp only [shape, size, ihf, iha]
  | abs _ A b ih => simp only [shape, size, ih]
  | proj r l ih => simp only [shape, size, ih]
  | empty => rfl
  | cell l v r ihv ihr => simp only [shape, size, ihv, ihr]
  | hole => rfl

/-- The shape has the annotations of the term. -/
lemma annotations_shape (t : Term) : t.shape.annotations = t.annotations := by
  induction t with
  | var _ => rfl
  | app f a ihf iha => simp only [shape, annotations, ihf, iha]
  | abs _ A b ih => simp only [shape, annotations, ih]
  | proj r l ih => simp only [shape, annotations, ih]
  | empty => rfl
  | cell l v r ihv ihr => simp only [shape, annotations, ihv, ihr]
  | hole => rfl

end Term

open Term

/-- Putting a variable for a variable keeps the shape. -/
lemma Substituted.shape_eq {x : String} {v t r : Term} (sub : Substituted x v t r) (var : v.isVar) :
    r.shape = t.shape := by
  induction sub with
  | @varHit x v =>
    cases v with
    | var z => rfl
    | _ => cases var
  | varMiss _ => rfl
  | app _ _ ihf iha => rw [shape, shape, ihf var, iha var]
  | absKeep _ => rfl
  | absRename _ _ _ _ _ _ _ _ ihb ihr =>
    -- the first call puts a variable for the binder in any case
    rw [shape, shape, ihr var, ihb rfl]
  | absDown _ _ _ _ ih => rw [shape, shape, ih var]
  | proj _ ih => rw [shape, shape, ih var]
  | empty => rfl
  | cell _ _ ihw ihr => rw [shape, shape, ihw var, ihr var]
  | hole => rfl

namespace Term

/-- Renaming keeps the shape. -/
lemma shape_rename (t : Term) (y z : String) : (t.subst y (.var z)).shape = t.shape :=
  (substituted_subst y (.var z) t).shape_eq rfl

end Term

/-! ## Calls -/

/-- A call of substitution: `value` is to be put for `name` in `target`. -/
structure SubstCall where
  name : String
  value : Term
  target : Term

namespace SubstCall

/-- The calls that a call makes itself. -/
inductive Makes : SubstCall → SubstCall → Prop where
  | appFn {x v f a} :
    Makes ⟨x, v, .app f a⟩ ⟨x, v, f⟩
  | appArg {x v f a} :
    Makes ⟨x, v, .app f a⟩ ⟨x, v, a⟩
  /-- The renaming of a body. -/
  | absRename {x v y A b} :
    y ≠ x →
    x ∈ b.freeVars →
    y ∈ v.freeVars →
    Makes ⟨x, v, .abs y A b⟩ ⟨y, .var (fresh y (v.freeVars ++ b.freeVars ++ [x])), b⟩
  /-- The substitution in the renamed body. -/
  | absRenamed {x v y A b} :
    y ≠ x →
    x ∈ b.freeVars →
    y ∈ v.freeVars →
    Makes ⟨x, v, .abs y A b⟩
      ⟨x, v, b.subst y (.var (fresh y (v.freeVars ++ b.freeVars ++ [x])))⟩
  | absDown {x v y A b} :
    y ≠ x →
    x ∈ b.freeVars →
    y ∉ v.freeVars →
    Makes ⟨x, v, .abs y A b⟩ ⟨x, v, b⟩
  | proj {x v r l} :
    Makes ⟨x, v, .proj r l⟩ ⟨x, v, r⟩
  | cellValue {x v l w r} :
    Makes ⟨x, v, .cell l w r⟩ ⟨x, v, w⟩
  | cellRest {x v l w r} :
    Makes ⟨x, v, .cell l w r⟩ ⟨x, v, r⟩

/-- A call is made on a smaller target. -/
lemma Makes.size_lt {c d : SubstCall} (mk : Makes c d) : d.target.size < c.target.size := by
  cases mk with
  | absRenamed _ _ _ =>
    rw [size_subst_var]
    simp only [size]
    omega
  | _ =>
    simp only [size]
    omega

/-- No call leads to calls without end. -/
lemma wellFounded_makes : WellFounded fun d c => Makes c d :=
  Subrelation.wf Makes.size_lt (measure fun c : SubstCall => c.target.size).wf

end SubstCall

namespace Term

/-- Substitution by its rules, with calls nested at most so deep. -/
def substWithin : Nat → Term → String → Term → Option Term
  | 0, _, _, _ => none
  | n + 1, t, x, v =>
    match t with
    | var y => some (if y = x then v else var y)
    | app f a => do return app (← f.substWithin n x v) (← a.substWithin n x v)
    | abs y A b =>
      if y = x ∨ x ∉ b.freeVars then some (abs y A b)
      else if y ∈ v.freeVars then do
        let z := fresh y (v.freeVars ++ b.freeVars ++ [x])
        let b' ← b.substWithin n y (var z)
        return abs z A (← b'.substWithin n x v)
      else do return abs y A (← b.substWithin n x v)
    | proj r l => do return proj (← r.substWithin n x v) l
    | empty => some empty
    | cell l w r => do return cell l (← w.substWithin n x v) (← r.substWithin n x v)
    | hole => some hole

/-- The size of the term is depth enough. -/
lemma substWithin_eq {n : Nat} {t : Term} (le : t.size ≤ n) (x : String) (v : Term) :
    t.substWithin n x v = some (t.subst x v) := by
  induction n generalizing t x v with
  | zero => cases t <;> simp only [size] at le <;> omega
  | succ n ih =>
    cases t with
    | var y => rw [substWithin, subst_var]
    | app f a =>
      simp only [size] at le
      rw [substWithin, subst_app, ih (by omega), ih (by omega)]
      rfl
    | abs y A b =>
      simp only [size] at le
      rw [substWithin, subst_abs]
      split
      · rfl
      · split
        · -- the renamed body is as large as the body
          have renamed := fun z => ih (t := b.subst y (var z)) (by rw [size_subst_var]; omega) x v
          dsimp only
          rw [ih (by omega)]
          show Option.bind (substWithin n (b.subst y _) x v) _ = _
          rw [renamed]
          rfl
        · rw [ih (by omega)]
          rfl
    | proj r l =>
      simp only [size] at le
      rw [substWithin, subst_proj, ih (by omega)]
      rfl
    | empty => rw [substWithin, subst_empty]
    | cell l w r =>
      simp only [size] at le
      rw [substWithin, subst_cell, ih (by omega), ih (by omega)]
      rfl
    | hole => rw [substWithin, subst_hole]

/-- The calls of a substitution come to an end: followed by its rules as deep as the target has
nodes, it has its result. Putting a variable for a variable keeps the number of nodes, the shape and
the annotations of a term. So every call that a call makes has a smaller target, also the one that
renames a body and the one that goes on in the renamed body, and no call leads to calls without
end. -/
theorem subst_terminates (t : Term) :
    (∀ n, t.size ≤ n → ∀ x v, t.substWithin n x v = some (t.subst x v)) ∧
    (∀ y z, (t.subst y (.var z)).size = t.size ∧ (t.subst y (.var z)).shape = t.shape ∧
      (t.subst y (.var z)).annotations = t.annotations) ∧
    (∀ x v d, SubstCall.Makes ⟨x, v, t⟩ d → d.target.size < t.size) ∧
    WellFounded fun d c => SubstCall.Makes c d := by
  refine ⟨?_, ?_, ?_, SubstCall.wellFounded_makes⟩
  · intro n le x v
    exact substWithin_eq le x v
  · intro y z
    have same := shape_rename t y z
    refine ⟨?_, same, ?_⟩
    · rw [← size_shape, same, size_shape]
    · rw [← annotations_shape, same, annotations_shape]
  · intro x v d mk
    exact mk.size_lt

/-- To make room for `y` the outer binder becomes `y'`, and for this the inner binder has to be
renamed first. -/
theorem subst_terminates_twice :
    let A : Ty := .base "A"
    let b : Term := .abs "y'" A (.app (.app (.var "x") (.var "y")) (.var "y'"))
    let b' : Term := .abs "y''" A (.app (.app (.var "x") (.var "y'")) (.var "y''"))
    let t : Term := .abs "y" A b
    let r : Term := .abs "y'" A (.abs "y''" A (.app (.app (.var "y") (.var "y'")) (.var "y''")))
    t.size ≤ 9 ∧ t.substWithin 9 "x" (.var "y") = some r ∧ t.subst "x" (.var "y") = r ∧
      b.subst "y" (.var "y'") = b' ∧
      (b'.size = b.size ∧ b'.shape = b.shape ∧ b'.annotations = b.annotations) ∧
      SubstCall.Makes ⟨"x", .var "y", t⟩ ⟨"y", .var "y'", b⟩ ∧ b.size < t.size ∧
      SubstCall.Makes ⟨"x", .var "y", t⟩ ⟨"x", .var "y", b'⟩ ∧ b'.size < t.size := by
  intro A b b' t r
  have result : t.subst "x" (.var "y") = r := by cbv
  have renamed : b.subst "y" (.var "y'") = b' := by cbv
  have rename : SubstCall.Makes ⟨"x", .var "y", t⟩ ⟨"y", .var "y'", b⟩ :=
    .absRename (by decide) (by decide) (by decide)
  have goOn : SubstCall.Makes ⟨"x", .var "y", t⟩ ⟨"x", .var "y", b'⟩ := by
    rw [← renamed]
    exact .absRenamed (by decide) (by decide) (by decide)
  obtain ⟨ends, _, smaller, _⟩ := subst_terminates t
  have same := (subst_terminates b).2.1 "y" "y'"
  rw [renamed] at same
  have done := ends 9 (by decide) "x" (.var "y")
  rw [result] at done
  exact ⟨by decide, done, result, renamed, same, rename, smaller _ _ _ rename, goOn,
    smaller _ _ _ goOn⟩

end Term

end RecordLambda
