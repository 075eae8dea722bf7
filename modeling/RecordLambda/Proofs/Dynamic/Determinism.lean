import RecordLambda.Meta.Property
import RecordLambda.Proofs.Dynamic.Concrete

/-!
# Determinism

`Term.step` prefers the leftmost place that is not yet a value, whereas `Term.reducts` collects what
every rule allows by itself. They come to the same, `Term.reducts_of_step`: since a value has no
reduct, at most one of the rules for a constructor applies, and it is the one that the step takes.

Along a chain the place of the step can be found in one pass, which leaves the cells that hold
values behind and puts them back around the result. This pass is `Term.stepAlong`, and it finds the
same step, however the chain ends.
-/

namespace RecordLambda

namespace Term

/-! ## One pass along a chain -/

/-- The step of a chain of which the cells `done`, which hold values, were already passed. -/
def stepAlong (done : List (String × Term)) : Term → Except Fault (Option Term)
  | cell l v r =>
    if v.isValue then stepAlong (done ++ [(l, v)]) r
    else return (← v.step).map fun v' => ofFields done (cell l v' r)
  | t => if t.isValue then .ok none else return (← t.step).map (ofFields done)

/-- A last field stands innermost. -/
lemma ofFields_append_singleton (done : List (String × Term)) (l : String) (v : Term) :
    ofFields (done ++ [(l, v)]) = fun r => ofFields done (cell l v r) :=
  funext fun _ => List.foldr_append

/-- Steps below two constructors, one inside of the other. -/
lemma lifted_lifted (s : Except Fault (Option Term)) (inner outer : Term → Term) :
    (do return (← (do return (← s).map inner)).map outer : Except Fault (Option Term)) =
      (do return (← s).map fun u => outer (inner u)) := by
  rcases s with f | _ | u <;> rfl

/-- The end of a chain is stepped as it is, unless it is a value and has no step. -/
lemma stepAlong_end {t : Term} (done : List (String × Term)) :
    (if t.isValue then .ok none else return (← t.step).map (ofFields done)) =
      (do return (← t.step).map (ofFields done) : Except Fault (Option Term)) := by
  cases vl : t.isValue with
  | false => rfl
  | true =>
    rw [step_of_isValue vl]
    rfl

/-- The pass finds the step of what is left of the chain, and puts back what it has passed. -/
lemma stepAlong_eq (done : List (String × Term)) (t : Term) :
    t.stepAlong done = (do return (← t.step).map (ofFields done)) := by
  induction t generalizing done with
  | cell l v r _ ihr =>
    rw [stepAlong]
    cases vl : v.isValue with
    | false =>
      rw [step_cell_value vl, lifted_lifted]
      rfl
    | true =>
      rw [step_cell_rest vl, lifted_lifted, if_pos rfl, ihr, ofFields_append_singleton]
  | _ => exact stepAlong_end done

/-- The step along no fields is the step. -/
lemma stepAlong_nil (t : Term) : t.stepAlong [] = t.step := by
  rw [stepAlong_eq]
  rcases t.step with f | _ | u <;> rfl

/-! ## Reducts

The equations of `Term.reducts` in the cases that `Term.step` distinguishes. -/

variable {f a r v t : Term} {l : String}

/-- A value has no reduct. -/
lemma reducts_of_isValue (vl : t.isValue) : t.reducts = [] := by
  induction t with
  | abs x A b _ => rfl
  | empty => rfl
  | cell l v r ihv ihr =>
    obtain ⟨vlV, vlR⟩ := isValue_cell.1 vl
    rw [reducts, ihv vlV, ihr vlR]
    simp
  | _ => cases vl

/-- The redex that an application itself may be. -/
def redex (a : Term) : Term → List Term
  | abs x _ b => if a.isValue then [b.subst x a] else []
  | _ => []

/-- The reducts of an application: in the function, in the argument if the function is a value, and
at the root. -/
lemma reducts_app (f a : Term) :
    (app f a).reducts =
      f.reducts.map (.app · a) ++ (if f.isValue then a.reducts.map (.app f ·) else [])
        ++ redex a f := by
  cases f <;> rfl

lemma reducts_app_fn (no : f.isValue = false) :
    (app f a).reducts = f.reducts.map (.app · a) := by
  rw [reducts_app, no]
  cases f <;> simp_all [redex, isValue]

lemma reducts_app_arg (vl : f.isValue) (no : a.isValue = false) :
    (app f a).reducts = a.reducts.map (.app f ·) := by
  rw [reducts_app, reducts_of_isValue vl, if_pos vl]
  cases f <;> simp [redex, no]

lemma reducts_app_value (vlF : f.isValue) (vlA : a.isValue) : (app f a).reducts = redex a f := by
  simp [reducts_app, reducts_of_isValue vlF, reducts_of_isValue vlA]

lemma reducts_proj_record (no : r.isValue = false) :
    (proj r l).reducts = r.reducts.map (.proj · l) := by
  simp [reducts, no]

/-- A projection from a value reduces to the field, if there is one. -/
lemma reducts_proj_field (vl : r.isValue) : (proj r l).reducts = (r.lookup l).toList := by
  simp [reducts, reducts_of_isValue vl, vl]

lemma reducts_cell_value (no : v.isValue = false) :
    (cell l v r).reducts = v.reducts.map (.cell l · r) := by
  simp [reducts, no]

lemma reducts_cell_rest (vl : v.isValue) :
    (cell l v r).reducts = r.reducts.map (.cell l v ·) := by
  simp [reducts, reducts_of_isValue vl, vl]

/-! ## The rules agree with the function -/

/-- A part whose reducts are given by its step hands both of them on to the whole. -/
lemma reducts_of_lifted {s : Except Fault (Option Term)} {o : Option Term} {us : List Term}
    {wrap : Term → Term} (part : ∀ o, s = .ok o → us = o.toList)
    (eq : (do return (← s).map wrap) = Except.ok o) : us.map wrap = o.toList := by
  cases o with
  | none => rw [part none (lifted_eq_none_iff.1 eq), Option.toList_none, List.map_nil]
  | some t' =>
    obtain ⟨u, some, rfl⟩ := lifted_eq_some_iff.1 eq
    rw [part _ some, Option.toList_some, List.map_singleton, Option.toList_some]

/-- The reducts are the step, if there is one. -/
lemma reducts_of_step {o : Option Term} (eq : t.step = .ok o) : t.reducts = o.toList := by
  induction t generalizing o with
  | app f a ihf iha =>
    cases vlF : f.isValue with
    | false =>
      rw [step_app_fn vlF] at eq
      rw [reducts_app_fn vlF]
      exact reducts_of_lifted (fun _ => ihf) eq
    | true =>
      cases vlA : a.isValue with
      | false =>
        rw [step_app_arg vlF vlA] at eq
        rw [reducts_app_arg vlF vlA]
        exact reducts_of_lifted (fun _ => iha) eq
      | true =>
        rw [reducts_app_value vlF vlA]
        -- only an abstraction can be applied to a value
        cases f with
        | abs x A b =>
          rw [step_beta vlA] at eq
          cases eq
          exact if_pos vlA
        | _ =>
          simp only [step, vlF, vlA] at eq
          cases eq
          rfl
  | proj r l ih =>
    cases vl : r.isValue with
    | false =>
      rw [step_proj_record vl] at eq
      rw [reducts_proj_record vl]
      exact reducts_of_lifted (fun _ => ih) eq
    | true =>
      rw [step_proj_field vl] at eq
      cases eq
      exact reducts_proj_field vl
  | cell l v r ihv ihr =>
    cases vl : v.isValue with
    | false =>
      rw [step_cell_value vl] at eq
      rw [reducts_cell_value vl]
      exact reducts_of_lifted (fun _ => ihv) eq
    | true =>
      rw [step_cell_rest vl] at eq
      rw [reducts_cell_rest vl]
      exact reducts_of_lifted (fun _ => ihr) eq
  | hole => cases eq
  | _ =>
    cases eq
    rfl

/-- There is at most one reduct. -/
lemma length_reducts_le_one {o : Option Term} (eq : t.step = .ok o) : t.reducts.length ≤ 1 := by
  rw [reducts_of_step eq]
  cases o <;> simp

/-- The check of determinism passes if the step does not fail. -/
lemma determinism_of_step {o : Option Term} (eq : t.step = .ok o) :
    (Value.node t).determinism = .ok true := by
  have few : ¬t.reducts.length > 1 := Nat.not_lt.2 (length_reducts_le_one eq)
  have head : t.reducts.head? = o := by
    rw [reducts_of_step eq]
    cases o <;> rfl
  rw [Value.determinism, Value.reducts, if_neg few, Value.step, eq, head]
  exact congrArg Except.ok (beq_self_eq_true o)

/-- The reducts of a concrete term are its step, if there is one, and this is also the step that one
pass along a chain finds. So at most one rule applies, none applies to a value, and the property of
determinism holds. -/
theorem reducts_eq_step {t : Term} (con : t.concrete) :
    (∃ s, t.step = .ok s ∧ t.stepAlong [] = .ok s ∧ t.reducts = s.toList) ∧
      t.reducts.length ≤ 1 ∧
      (t.isValue → t.step = .ok none ∧ t.reducts = []) ∧
      (Value.node t).determinism = .ok true := by
  obtain ⟨s, eq⟩ := exists_step_eq_ok con
  have along : t.stepAlong [] = .ok s := (stepAlong_nil t).trans eq
  refine ⟨⟨s, eq, along, reducts_of_step eq⟩, length_reducts_le_one eq, ?_, determinism_of_step eq⟩
  intro vl
  exact ⟨step_of_isValue vl, reducts_of_isValue vl⟩

/-- A chain that holds values only, and ends in something that is no record but reduces to one. -/
theorem reducts_eq_step_end :
    let i : Term := .abs "x" (.base "B") (.var "x")
    let t : Term := .cell "a" i (.cell "b" .empty (.app i .empty))
    t.concrete ∧ t.reducts = [.cell "a" i (.cell "b" .empty .empty)] ∧
      (Value.node t).determinism = .ok true := by
  intro i t
  have con : t.concrete := rfl
  have st : t.step = .ok (some (.cell "a" i (.cell "b" .empty .empty))) := by cbv
  obtain ⟨⟨s, eq, _, red⟩, _, _, det⟩ := reducts_eq_step con
  cases st.symm.trans eq
  exact ⟨con, red, det⟩

end Term

end RecordLambda
