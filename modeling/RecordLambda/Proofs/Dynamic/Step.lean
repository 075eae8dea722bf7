import RecordLambda.Dynamic.Step
import Mathlib.Logic.Relation
import Mathlib.Tactic.Lemma

/-!
# The reduction relation

The rules of call-by-value reduction as a relation. `Term.step_eq_some_iff` says that these are the
steps that `Term.step` makes, so a property of steps is proved by induction on the rules. A value
has no step, which is also what keeps the rules apart: where one of them asks for a value, another
one steps at the same place.

`Steps` are any number of steps in a row.
-/

namespace RecordLambda

/-- The first term reduces to the second in one step. -/
inductive Step : Term → Term → Prop where
  | appFn {f f' a} :
    Step f f' →
    Step (.app f a) (.app f' a)
  | appArg {f a a'} :
    f.isValue →
    Step a a' →
    Step (.app f a) (.app f a')
  | beta {x A b a} :
    a.isValue →
    Step (.app (.abs x A b) a) (b.subst x a)
  | projRecord {r r' l} :
    Step r r' →
    Step (.proj r l) (.proj r' l)
  | projField {r l v} :
    r.isValue →
    r.lookup l = some v →
    Step (.proj r l) v
  | cellValue {l v v' r} :
    Step v v' →
    Step (.cell l v r) (.cell l v' r)
  | cellRest {l v r r'} :
    v.isValue →
    Step r r' →
    Step (.cell l v r) (.cell l v r')

namespace Term

/-- A cell is a value if its field and its rest are. -/
@[simp]
lemma isValue_cell {l : String} {v r : Term} :
    (cell l v r).isValue ↔ v.isValue ∧ r.isValue := by
  simp [isValue]

/-! ## Steps below a constructor

In each of its recursive cases `Term.step` steps a part of the term and puts the result back in its
place. -/

section Lifted

variable {s : Except Fault (Option Term)} {wrap : Term → Term}

/-- A step of a part, put into place, is a step of the whole. -/
lemma lifted_eq_some_iff {t' : Term} :
    (do return (← s).map wrap) = .ok (some t') ↔ ∃ u, s = .ok (some u) ∧ wrap u = t' := by
  rcases s with f | _ | u
  · exact ⟨nofun, nofun⟩
  · exact ⟨nofun, nofun⟩
  · constructor
    · intro eq
      cases eq
      exact ⟨u, rfl, rfl⟩
    · rintro ⟨_, eq, rfl⟩
      cases eq
      rfl

/-- If a part has no step, none is put into place. -/
lemma lifted_eq_none_iff : (do return (← s).map wrap) = .ok none ↔ s = .ok none := by
  rcases s with f | _ | u
  · exact ⟨nofun, nofun⟩
  · exact ⟨fun _ => rfl, fun _ => rfl⟩
  · exact ⟨nofun, nofun⟩

end Lifted

variable {f a r v t t' : Term} {l : String}

/-- The function of an application makes its steps first. -/
lemma step_app_fn (no : f.isValue = false) :
    (app f a).step = (do return (← f.step).map (.app · a)) :=
  if_pos (by rw [no]; rfl)

lemma step_app_arg (vl : f.isValue) (no : a.isValue = false) :
    (app f a).step = (do return (← a.step).map (.app f ·)) :=
  (if_neg (by rw [vl]; decide)).trans (if_pos (by rw [no]; rfl))

/-- An abstraction takes a value in. -/
lemma step_beta {x : String} {A : Ty} {b : Term} (vl : a.isValue) :
    (app (abs x A b) a).step = .ok (some (b.subst x a)) :=
  (if_neg Bool.false_ne_true).trans (if_neg (by rw [vl]; decide))

lemma step_proj_record (no : r.isValue = false) :
    (proj r l).step = (do return (← r.step).map (.proj · l)) :=
  if_pos (by rw [no]; rfl)

/-- A field is taken out of a value. -/
lemma step_proj_field (vl : r.isValue) : (proj r l).step = .ok (r.lookup l) :=
  if_neg (by rw [vl]; decide)

lemma step_cell_value (no : v.isValue = false) :
    (cell l v r).step = (do return (← v.step).map (.cell l · r)) :=
  if_pos (by rw [no]; rfl)

lemma step_cell_rest (vl : v.isValue) :
    (cell l v r).step = (do return (← r.step).map (.cell l v ·)) :=
  if_neg (by rw [vl]; decide)

/-- A value has no step. -/
lemma step_of_isValue (vl : t.isValue) : t.step = .ok none := by
  induction t with
  | abs x A b _ => rfl
  | empty => rfl
  | cell l v r _ ihr =>
    obtain ⟨vlV, vlR⟩ := isValue_cell.1 vl
    rw [step_cell_rest vlV, lifted_eq_none_iff]
    exact ihr vlR
  | _ => cases vl

/-! ## The function follows the rules -/

/-- The steps that are made are steps by the rules. -/
lemma step_sound (eq : t.step = .ok (some t')) : Step t t' := by
  induction t generalizing t' with
  | app f a ihf iha =>
    cases vlF : f.isValue with
    | false =>
      rw [step_app_fn vlF, lifted_eq_some_iff] at eq
      obtain ⟨f', st, rfl⟩ := eq
      exact .appFn (ihf st)
    | true =>
      cases vlA : a.isValue with
      | false =>
        rw [step_app_arg vlF vlA, lifted_eq_some_iff] at eq
        obtain ⟨a', st, rfl⟩ := eq
        exact .appArg vlF (iha st)
      | true =>
        cases f with
        | abs x A b =>
          rw [step_beta vlA] at eq
          cases eq
          exact .beta vlA
        | _ => simp [step, vlF, vlA] at eq
  | proj r l ih =>
    cases vl : r.isValue with
    | false =>
      rw [step_proj_record vl, lifted_eq_some_iff] at eq
      obtain ⟨r', st, rfl⟩ := eq
      exact .projRecord (ih st)
    | true =>
      rw [step_proj_field vl] at eq
      exact .projField vl (Except.ok.inj eq)
  | cell l v r ihv ihr =>
    cases vl : v.isValue with
    | false =>
      rw [step_cell_value vl, lifted_eq_some_iff] at eq
      obtain ⟨v', st, rfl⟩ := eq
      exact .cellValue (ihv st)
    | true =>
      rw [step_cell_rest vl, lifted_eq_some_iff] at eq
      obtain ⟨r', st, rfl⟩ := eq
      exact .cellRest vl (ihr st)
  | _ => cases eq

/-- What has a step is no value. -/
lemma isValue_eq_false_of_step (eq : t.step = .ok (some t')) : t.isValue = false := by
  apply Bool.eq_false_iff.2
  intro vl
  rw [step_of_isValue vl] at eq
  cases eq

/-- The steps by the rules are made. -/
lemma step_complete (st : Step t t') : t.step = .ok (some t') := by
  -- a part that steps is no value, and so the function comes to the same part
  induction st with
  | appFn _ ih =>
    rw [step_app_fn (isValue_eq_false_of_step ih)]
    exact lifted_eq_some_iff.2 ⟨_, ih, rfl⟩
  | appArg vl _ ih =>
    rw [step_app_arg vl (isValue_eq_false_of_step ih)]
    exact lifted_eq_some_iff.2 ⟨_, ih, rfl⟩
  | beta vl => exact step_beta vl
  | projRecord _ ih =>
    rw [step_proj_record (isValue_eq_false_of_step ih)]
    exact lifted_eq_some_iff.2 ⟨_, ih, rfl⟩
  | projField vl sel => rw [step_proj_field vl, sel]
  | cellValue _ ih =>
    rw [step_cell_value (isValue_eq_false_of_step ih)]
    exact lifted_eq_some_iff.2 ⟨_, ih, rfl⟩
  | cellRest vl _ ih =>
    rw [step_cell_rest vl]
    exact lifted_eq_some_iff.2 ⟨_, ih, rfl⟩

/-- The function makes just the steps of the rules. -/
lemma step_eq_some_iff : t.step = .ok (some t') ↔ Step t t' :=
  ⟨step_sound, step_complete⟩

end Term

/-- A record stays a record. -/
lemma Step.isRecord {t t' : Term} (st : Step t t') (rec : t.isRecord) : t'.isRecord := by
  cases st with
  | cellValue _ => rfl
  | cellRest _ _ => rfl
  | _ => cases rec

/-! ## Steps in a row

What a part reduces to may be put in its place, wherever a step may be made there. -/

/-- The first term reduces to the second in some number of steps. -/
def Steps : Term → Term → Prop := Relation.ReflTransGen Step

/-- Reductions may be chained. -/
instance : Trans Steps Steps Steps := ⟨Relation.ReflTransGen.trans⟩

namespace Steps

variable {f f' a a' r r' v v' : Term} {l : String}

lemma appFn (rd : Steps f f') : Steps (.app f a) (.app f' a) :=
  Relation.ReflTransGen.lift (Term.app · a) (fun _ _ => Step.appFn) _ _ rd

lemma appArg (vl : f.isValue) (rd : Steps a a') : Steps (.app f a) (.app f a') :=
  Relation.ReflTransGen.lift (Term.app f ·) (fun _ _ => Step.appArg vl) _ _ rd

lemma projRecord (rd : Steps r r') : Steps (.proj r l) (.proj r' l) :=
  Relation.ReflTransGen.lift (Term.proj · l) (fun _ _ => Step.projRecord) _ _ rd

lemma cellValue (rd : Steps v v') : Steps (.cell l v r) (.cell l v' r) :=
  Relation.ReflTransGen.lift (Term.cell l · r) (fun _ _ => Step.cellValue) _ _ rd

lemma cellRest (vl : v.isValue) (rd : Steps r r') : Steps (.cell l v r) (.cell l v r') :=
  Relation.ReflTransGen.lift (Term.cell l v ·) (fun _ _ => Step.cellRest vl) _ _ rd

end Steps

end RecordLambda
