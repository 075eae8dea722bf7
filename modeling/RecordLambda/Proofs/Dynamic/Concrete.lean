import RecordLambda.Proofs.Dynamic.EvalContext
import RecordLambda.Proofs.Dynamic.Run
import RecordLambda.Proofs.Dynamic.Subst

/-!
# Evaluation of concrete terms

A step can only meet a hole that is already there: substitution, projection and the rules below the
constructors put together what they find. So a concrete term reduces to concrete terms only,
`Steps.concrete`, asking for a step is never a fault, and every evaluation hands out a run,
`Term.exists_handsOut`.
-/

namespace RecordLambda

/-- A substitution brings in no hole. -/
lemma Substituted.concrete {x : String} {v t r : Term} (sub : Substituted x v t r)
    (conV : v.concrete) (con : t.concrete) : r.concrete := by
  induction sub with
  | varHit => exact conV
  | varMiss _ => rfl
  | app _ _ ihf iha =>
    obtain ⟨conF, conA⟩ := Term.concrete_app.1 con
    exact Term.concrete_app.2 ⟨ihf conV conF, iha conV conA⟩
  | absKeep _ => exact con
  | absRename _ _ _ _ _ _ _ _ ihb ihr =>
    obtain ⟨conA, conB⟩ := Term.concrete_abs.1 con
    exact Term.concrete_abs.2 ⟨conA, ihr conV (ihb rfl conB)⟩
  | absDown _ _ _ _ ih =>
    obtain ⟨conA, conB⟩ := Term.concrete_abs.1 con
    exact Term.concrete_abs.2 ⟨conA, ih conV conB⟩
  | proj _ ih => exact ih conV con
  | empty => rfl
  | cell _ _ ihw ihr =>
    obtain ⟨conW, conR⟩ := Term.concrete_cell.1 con
    exact Term.concrete_cell.2 ⟨ihw conV conW, ihr conV conR⟩
  | hole => cases con

namespace Term

variable {t : Term}

/-- To be concrete is hereditary. -/
lemma hereditary_concrete : Hereditary fun t => t.concrete :=
  ⟨concrete_app, concrete_proj, concrete_cell⟩

/-- The body of a concrete abstraction stays concrete when a concrete argument is put in. -/
lemma concrete_subst_of_abs {x : String} {A : Ty} {b a : Term} (conF : (abs x A b).concrete)
    (conA : a.concrete) : (b.subst x a).concrete :=
  (substituted_subst x a b).concrete conA (concrete_abs.1 conF).2

/-- A concrete term can always be asked for a step. -/
lemma exists_step_eq_ok (con : t.concrete) : ∃ s, t.step = .ok s := by
  induction t with
  | var x => exact ⟨none, rfl⟩
  | app f a ihf iha =>
    obtain ⟨conF, conA⟩ := concrete_app.1 con
    cases vlF : f.isValue with
    | false =>
      obtain ⟨s, eq⟩ := ihf conF
      exact ⟨_, by rw [step_app_fn vlF, eq]; rfl⟩
    | true =>
      cases vlA : a.isValue with
      | false =>
        obtain ⟨s, eq⟩ := iha conA
        exact ⟨_, by rw [step_app_arg vlF vlA, eq]; rfl⟩
      | true => cases f <;> simp [step, vlF, vlA]
  | abs x A b _ => exact ⟨none, rfl⟩
  | proj r l ih =>
    cases vl : r.isValue with
    | false =>
      obtain ⟨s, eq⟩ := ih con
      exact ⟨_, by rw [step_proj_record vl, eq]; rfl⟩
    | true => exact ⟨_, step_proj_field vl⟩
  | empty => exact ⟨none, rfl⟩
  | cell l v r ihv ihr =>
    obtain ⟨conV, conR⟩ := concrete_cell.1 con
    cases vl : v.isValue with
    | false =>
      obtain ⟨s, eq⟩ := ihv conV
      exact ⟨_, by rw [step_cell_value vl, eq]; rfl⟩
    | true =>
      obtain ⟨s, eq⟩ := ihr conR
      exact ⟨_, by rw [step_cell_rest vl, eq]; rfl⟩
  | hole => cases con

end Term

variable {t t' : Term}

/-- A step brings in no hole. -/
lemma Step.concrete (st : Step t t') (con : t.concrete) : t'.concrete :=
  Term.hereditary_concrete.step Term.concrete_subst_of_abs st con

/-- What a concrete term reduces to is concrete. -/
lemma Steps.concrete (rd : Steps t t') (con : t.concrete) : t'.concrete :=
  Term.hereditary_concrete.steps Term.concrete_subst_of_abs rd con

namespace Term

/-- A walk from a concrete term does not fail. -/
lemma exists_walk_eq_ok (con : t.concrete) (n : Nat) : ∃ ts done, t.walk n = .ok (ts, done) := by
  rcases eq : t.walk n with f | ⟨ts, done⟩
  · obtain ⟨u, rd, err⟩ := steps_of_walk_error eq
    obtain ⟨s, ok⟩ := exists_step_eq_ok (rd.concrete con)
    cases err.symm.trans ok
  · exact ⟨ts, done, rfl⟩

/-- Evaluating a concrete term hands out a run under every limit. -/
lemma exists_handsOut (con : t.concrete) (limit : Limit) : ∃ r, HandsOut limit t r := by
  obtain ⟨ts, done, eq⟩ := exists_walk_eq_ok con limit.reach
  exact ⟨_, handsOut_of_walk eq⟩

end Term

end RecordLambda
