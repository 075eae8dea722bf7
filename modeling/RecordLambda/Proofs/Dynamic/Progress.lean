import RecordLambda.Proofs.Dynamic.Step
import RecordLambda.Proofs.Static.Canonical

/-!
# Progress

A typed term is a value, has a step, or waits for a free variable. What a term waits for is found by
following the place of evaluation down from it: the function of an application and then the
argument, the record of a projection, and along a chain of cells the first one that does not hold a
value. No binder is crossed on the way, so a variable that is met is free in the term.

Without free variables there is nothing to wait for, which is progress for closed terms.
-/

namespace RecordLambda

namespace Term

/-- The place of evaluation in a chain: the first value along it that is none of the calculus, or
else the end. -/
def chainPosition (t : Term) : Term :=
  match t.fields.find? fun (_, v) => !v.isValue with
  | some (_, v) => v
  | none => t.chainEnd

/-- The part of a term that is to be evaluated next. -/
def position? : Term → Option Term
  | app f a => some (if f.isValue then a else f)
  | proj r _ => some r
  | t@(cell ..) => some t.chainPosition
  | _ => none

/-- Following the place of evaluation leads to a variable that is free in the term. -/
def Blocked (t : Term) : Prop :=
  ∃ x ∈ t.freeVars, Relation.ReflTransGen (fun t u => t.position? = some u) t (var x)

/-! ## The place of evaluation -/

variable {f a t u v r : Term} {l : String}

/-- An application is evaluated in its function first. -/
lemma position?_app_fn (no : f.isValue = false) : (app f a).position? = some f := by
  simp [position?, no]

/-- When the function is a value, the application is evaluated in its argument. -/
lemma position?_app_arg (vl : f.isValue) : (app f a).position? = some a := by
  simp [position?, vl]

/-- A cell is evaluated in its value first. -/
lemma position?_cell_value (no : v.isValue = false) : (cell l v r).position? = some v := by
  simp [position?, chainPosition, fields, no]

/-- When its value is a value, a cell is evaluated in the first place of the rest that is none. -/
lemma position?_cell_rest (vl : v.isValue) : (cell l v r).position? = some r.chainPosition := by
  simp [position?, chainPosition, fields, chainEnd, vl]

/-- From a record on, the chain goes on in itself; anything else is its own place. -/
lemma chainPosition_cases (r : Term) :
    r.position? = some r.chainPosition ∨ r.chainPosition = r := by
  cases r with
  | cell l v r => exact .inl rfl
  | _ => exact .inr rfl

/-- No binder is crossed. -/
lemma freeVars_position {x : String} (eq : t.position? = some u) (mem : x ∈ u.freeVars) :
    x ∈ t.freeVars := by
  induction t with
  | app f a _ _ =>
    cases vl : f.isValue with
    | false =>
      cases (position?_app_fn vl).symm.trans eq
      exact mem_freeVars_app.2 (.inl mem)
    | true =>
      cases (position?_app_arg vl).symm.trans eq
      exact mem_freeVars_app.2 (.inr mem)
  | proj r l _ =>
    cases eq
    exact mem
  | cell l v r _ ihr =>
    cases vl : v.isValue with
    | false =>
      cases (position?_cell_value vl).symm.trans eq
      exact mem_freeVars_cell.2 (.inl mem)
    | true =>
      cases (position?_cell_rest vl).symm.trans eq
      obtain more | last := chainPosition_cases r
      · exact mem_freeVars_cell.2 (.inr (ihr more))
      · rw [last] at mem
        exact mem_freeVars_cell.2 (.inr mem)
  | _ => cases eq

/-! ## Blocked terms -/

/-- A variable at the end of the way is free at its beginning. -/
lemma blocked_of_path {x : String}
    (path : Relation.ReflTransGen (fun t u => position? t = some u) t (var x)) : t.Blocked := by
  refine ⟨x, ?_, path⟩
  induction path using Relation.ReflTransGen.head_induction_on with
  | refl => exact mem_freeVars_var.2 rfl
  | head eq _ ih => exact freeVars_position eq ih

/-- A variable is blocked on itself. -/
lemma blocked_var (x : String) : (var x).Blocked :=
  blocked_of_path .refl

/-- A term is blocked if the place where it is evaluated is. -/
lemma Blocked.of_position (bl : u.Blocked) (eq : t.position? = some u) : t.Blocked := by
  obtain ⟨x, _, path⟩ := bl
  exact blocked_of_path (.head eq path)

/-- Whatever a blocked term evaluates next is blocked. -/
lemma Blocked.position (bl : t.Blocked) (eq : t.position? = some u) : u.Blocked := by
  obtain ⟨x, _, path⟩ := bl
  obtain e | ⟨u', eq', path⟩ := path.cases_head
  · subst e
    cases eq
  · cases eq.symm.trans eq'
    exact blocked_of_path path

/-- Past a value, a chain is blocked as its rest is. -/
lemma Blocked.cell (vl : v.isValue) (bl : r.Blocked) : (cell l v r).Blocked := by
  refine Blocked.of_position ?_ (position?_cell_rest vl)
  obtain more | last := chainPosition_cases r
  · exact bl.position more
  · rw [last]
    exact bl

/-- If the part that is to be evaluated next is stuck, so is the term. -/
lemma stuck_of_position (eq : t.position? = some u) (no : u.isValue = false)
    (stop : u.step = .ok none) : t.isValue = false ∧ t.step = .ok none := by
  induction t with
  | app f a _ _ =>
    refine ⟨rfl, ?_⟩
    cases vl : f.isValue with
    | false =>
      cases (position?_app_fn vl).symm.trans eq
      rw [step_app_fn no]
      exact lifted_eq_none_iff.2 stop
    | true =>
      cases (position?_app_arg vl).symm.trans eq
      rw [step_app_arg vl no]
      exact lifted_eq_none_iff.2 stop
  | proj r l _ =>
    cases eq
    refine ⟨rfl, ?_⟩
    rw [step_proj_record no]
    exact lifted_eq_none_iff.2 stop
  | cell l v r _ ihr =>
    cases vl : v.isValue with
    | false =>
      cases (position?_cell_value vl).symm.trans eq
      refine ⟨by rw [isValue, no, Bool.false_and], ?_⟩
      rw [step_cell_value no]
      exact lifted_eq_none_iff.2 stop
    | true =>
      cases (position?_cell_rest vl).symm.trans eq
      -- the rest is stuck: as a chain of its own, or because it is the end
      have stuck : r.isValue = false ∧ r.step = .ok none := by
        obtain more | last := chainPosition_cases r
        · exact ihr more
        · rw [last] at no stop
          exact ⟨no, stop⟩
      refine ⟨by rw [isValue, stuck.1, Bool.and_false], ?_⟩
      rw [step_cell_rest vl]
      exact lifted_eq_none_iff.2 stuck.2
  | _ => cases eq

/-- A blocked term is stuck. -/
lemma Blocked.stuck (bl : t.Blocked) : t.isValue = false ∧ t.step = .ok none := by
  obtain ⟨x, -, path⟩ := bl
  induction path using Relation.ReflTransGen.head_induction_on with
  | refl => exact ⟨rfl, rfl⟩
  | head eq _ ih => exact stuck_of_position eq ih.1 ih.2

end Term

/-! ## Typed terms -/

namespace Typed

variable {Γ : Env} {t v r : Term} {A B R T : Ty} {l : String}

/-- A value of a function type is an abstraction. -/
lemma canonical_arrow (ty : Typed Γ v (.arrow A B)) (vl : v.isValue) : ∃ x b, v = .abs x A b := by
  cases ty with
  | abs _ _ => exact ⟨_, _, rfl⟩
  | _ => cases vl

/-- A value holds the fields that its type promises. -/
lemma exists_lookup (ty : Typed Γ r R) (vl : r.isValue) (sel : R.lookup l = some A) :
    ∃ v, r.lookup l = some v := by
  obtain ⟨x, A', b, B, _, rfl⟩ | ⟨rec, _⟩ := ty.canonical vl
  · cases sel
  · obtain ⟨v, selR, _⟩ := (ty.lookup_eq_some_iff rec).1 sel
    exact ⟨v, selR⟩

/-- A typed term is a value, has a step, or is blocked on a free variable. -/
lemma progress (ty : Typed Γ t T) : t.isValue ∨ (∃ t', Step t t') ∨ t.Blocked := by
  induction ty with
  | @var _ x _ _ _ => exact .inr (.inr (Term.blocked_var x))
  | @app _ f a A B tyF _ ihf iha =>
    right
    obtain vlF | ⟨f', st⟩ | bl := ihf
    · obtain vlA | ⟨a', st⟩ | bl := iha
      · obtain ⟨x, b, rfl⟩ := tyF.canonical_arrow vlF
        exact .inl ⟨_, .beta vlA⟩
      · exact .inl ⟨_, .appArg vlF st⟩
      · exact .inr (bl.of_position (Term.position?_app_arg vlF))
    · exact .inl ⟨_, .appFn st⟩
    · exact .inr (bl.of_position (Term.position?_app_fn bl.stuck.1))
  | abs _ _ _ => exact .inl rfl
  | proj tyR sel ih =>
    right
    obtain vl | ⟨r', st⟩ | bl := ih
    · obtain ⟨v, selR⟩ := tyR.exists_lookup vl sel
      exact .inl ⟨v, .projField vl selR⟩
    · exact .inl ⟨_, .projRecord st⟩
    · exact .inr (bl.of_position rfl)
  | empty => exact .inl rfl
  | @cell _ l v r A R _ _ _ _ ihv ihr =>
    obtain vlV | ⟨v', st⟩ | bl := ihv
    · obtain vlR | ⟨r', st⟩ | bl := ihr
      · exact .inl (Term.isValue_cell.2 ⟨vlV, vlR⟩)
      · exact .inr (.inl ⟨_, .cellRest vlV st⟩)
      · exact .inr (.inr (bl.cell vlV))
    · exact .inr (.inl ⟨_, .cellValue st⟩)
    · exact .inr (.inr (bl.of_position (Term.position?_cell_value bl.stuck.1)))

end Typed

namespace Term

/-- A term with a type is a value, has a step, or is blocked on a free variable, and in the last
case it is neither a value nor able to step. Without free variables it is a value or has a step. -/
theorem value_or_step_or_blocked {Γ : Env} {t : Term} {T : Ty}
    (ty : t.hasType Γ = .ok (some T)) :
    (t.isValue ∨ (∃ t', t.step = .ok (some t')) ∨ t.Blocked) ∧
      (t.Blocked → t.isValue = false ∧ t.step = .ok none) ∧
      (t.freeVars = [] → t.isValue ∨ ∃ t', t.step = .ok (some t')) := by
  have three : t.isValue ∨ (∃ t', t.step = .ok (some t')) ∨ t.Blocked := by
    simp only [step_eq_some_iff]
    exact (hasType_eq_some_iff.1 ty).progress
  refine ⟨three, Blocked.stuck, ?_⟩
  intro none
  obtain vl | st | ⟨x, mem, _⟩ := three
  · exact .inl vl
  · exact .inr st
  · rw [none] at mem
    cases mem

/-- A record with a value in its first cell waits for the record that the second one projects. -/
theorem value_or_step_or_blocked_chain :
    let Γ : Env := OrderedMap.ofList [("r", .cell "l" (.base "A") .empty)]
    let T : Ty := .cell "a" (.arrow (.base "B") (.base "B")) (.cell "b" (.base "A") .empty)
    let t : Term := .cell "a" (.abs "x" (.base "B") (.var "x"))
      (.cell "b" (.proj (.var "r") "l") .empty)
    t.hasType Γ = .ok (some T) ∧ t.Blocked := by
  intro Γ T t
  have ty : t.hasType Γ = .ok (some T) := rfl
  obtain vl | ⟨t', st⟩ | bl := (value_or_step_or_blocked ty).1
  · exact absurd vl (by decide)
  · have stop : t.step = .ok none := rfl
    cases stop.symm.trans st
  · exact ⟨ty, bl⟩

end Term

end RecordLambda
