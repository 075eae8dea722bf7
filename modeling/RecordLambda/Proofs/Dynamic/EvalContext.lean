import RecordLambda.Proofs.Dynamic.Step

/-!
# Evaluation contexts

A step changes a term at one place: there a function is applied or a field is taken out of a record,
and what is around the place stays. `step_iff_contracts` takes every step apart like this.

The way down to the place leads through applications, projections and cells, never through a binder.
So a property that these constructors have just if their parts have it, which is called hereditary
here, holds at the place if it holds of the whole, and it is kept by a step if the application of a
function keeps it: `Hereditary.step`.
-/

namespace RecordLambda

/-- What is around the place of evaluation. Whatever comes before the place is a value. -/
inductive EvalContext where
  | here
  | appFn (K : EvalContext) (arg : Term)
  | appArg (fn : Term) (vl : fn.isValue) (K : EvalContext)
  | projRecord (K : EvalContext) (label : String)
  | cellValue (label : String) (K : EvalContext) (rest : Term)
  | cellRest (label : String) (value : Term) (vl : value.isValue) (K : EvalContext)

/-- The term that has `t` at the place. -/
def EvalContext.fill (t : Term) : EvalContext → Term
  | here => t
  | appFn K a => .app (K.fill t) a
  | appArg f _ K => .app f (K.fill t)
  | projRecord K l => .proj (K.fill t) l
  | cellValue l K r => .cell l (K.fill t) r
  | cellRest l v _ K => .cell l v (K.fill t)

/-- What a step does at its place. -/
inductive Contracts : Term → Term → Prop where
  | beta {x A b a} :
    a.isValue →
    Contracts (.app (.abs x A b) a) (b.subst x a)
  | field {r l v} :
    r.isValue →
    r.lookup l = some v →
    Contracts (.proj r l) v

variable {t t' r s v : Term} {l : String}

/-- A step at the place is a step of the whole. -/
lemma Step.fill (K : EvalContext) (st : Step t t') : Step (K.fill t) (K.fill t') := by
  induction K with
  | here => exact st
  | appFn K a ih => exact .appFn ih
  | appArg f vl K ih => exact .appArg vl ih
  | projRecord K l ih => exact .projRecord ih
  | cellValue l K r ih => exact .cellValue ih
  | cellRest l v vl K ih => exact .cellRest vl ih

/-- A contraction is a step. -/
lemma Contracts.step (ct : Contracts r s) : Step r s := by
  cases ct with
  | beta vl => exact .beta vl
  | field vl sel => exact .projField vl sel

/-- Every step is a contraction at some place. -/
lemma Step.exists_evalContext (st : Step t t') :
    ∃ (K : EvalContext) (r s : Term), Contracts r s ∧ t = K.fill r ∧ t' = K.fill s := by
  induction st with
  | @appFn f f' a _ ih =>
    obtain ⟨K, r, s, ct, rfl, rfl⟩ := ih
    exact ⟨.appFn K a, r, s, ct, rfl, rfl⟩
  | @appArg f a a' vl _ ih =>
    obtain ⟨K, r, s, ct, rfl, rfl⟩ := ih
    exact ⟨.appArg f vl K, r, s, ct, rfl, rfl⟩
  | beta vl => exact ⟨.here, _, _, .beta vl, rfl, rfl⟩
  | @projRecord r r' l _ ih =>
    obtain ⟨K, r, s, ct, rfl, rfl⟩ := ih
    exact ⟨.projRecord K l, r, s, ct, rfl, rfl⟩
  | projField vl sel => exact ⟨.here, _, _, .field vl sel, rfl, rfl⟩
  | @cellValue l v v' r _ ih =>
    obtain ⟨K, r', s, ct, rfl, rfl⟩ := ih
    exact ⟨.cellValue l K r, r', s, ct, rfl, rfl⟩
  | @cellRest l v r r' vl _ ih =>
    obtain ⟨K, r, s, ct, rfl, rfl⟩ := ih
    exact ⟨.cellRest l v vl K, r, s, ct, rfl, rfl⟩

/-- A step is a contraction at a place of evaluation. -/
lemma step_iff_contracts :
    Step t t' ↔ ∃ (K : EvalContext) (r s : Term), Contracts r s ∧ t = K.fill r ∧ t' = K.fill s := by
  constructor
  · exact Step.exists_evalContext
  · rintro ⟨K, r, s, ct, rfl, rfl⟩
    exact ct.step.fill K

/-! ## Hereditary properties -/

/-- Where no binder is passed, the property holds of a term just if it holds of the parts. -/
structure Hereditary (P : Term → Prop) : Prop where
  app : ∀ {f a}, P (.app f a) ↔ P f ∧ P a
  proj : ∀ {r l}, P (.proj r l) ↔ P r
  cell : ∀ {l v r}, P (.cell l v r) ↔ P v ∧ P r

namespace Hereditary

variable {P Q : Term → Prop}

/-- The conjunction of hereditary properties is hereditary. -/
lemma and (her : Hereditary P) (her' : Hereditary Q) : Hereditary fun t => P t ∧ Q t where
  app := (and_congr her.app her'.app).trans and_and_and_comm
  proj := and_congr her.proj her'.proj
  cell := (and_congr her.cell her'.cell).trans and_and_and_comm

/-- To have all of a family of hereditary properties is hereditary. -/
lemma all {ι : Type} {P : ι → Term → Prop} (her : ∀ i, Hereditary (P i)) :
    Hereditary fun t => ∀ i, P i t where
  app := (forall_congr' fun i => (her i).app).trans forall_and
  proj := forall_congr' fun i => (her i).proj
  cell := (forall_congr' fun i => (her i).cell).trans forall_and

/-- The property holds at the place, and whatever has it may be put there. -/
lemma fill (her : Hereditary P) {K : EvalContext} (h : P (K.fill t)) :
    P t ∧ ∀ s, P s → P (K.fill s) := by
  induction K with
  | here => exact ⟨h, fun _ h => h⟩
  | appFn K a ih =>
    obtain ⟨hK, hA⟩ := her.app.1 h
    obtain ⟨part, back⟩ := ih hK
    exact ⟨part, fun s hs => her.app.2 ⟨back s hs, hA⟩⟩
  | appArg f vl K ih =>
    obtain ⟨hF, hK⟩ := her.app.1 h
    obtain ⟨part, back⟩ := ih hK
    exact ⟨part, fun s hs => her.app.2 ⟨hF, back s hs⟩⟩
  | projRecord K l ih =>
    obtain ⟨part, back⟩ := ih (her.proj.1 h)
    exact ⟨part, fun s hs => her.proj.2 (back s hs)⟩
  | cellValue l K r ih =>
    obtain ⟨hK, hR⟩ := her.cell.1 h
    obtain ⟨part, back⟩ := ih hK
    exact ⟨part, fun s hs => her.cell.2 ⟨back s hs, hR⟩⟩
  | cellRest l v vl K ih =>
    obtain ⟨hV, hK⟩ := her.cell.1 h
    obtain ⟨part, back⟩ := ih hK
    exact ⟨part, fun s hs => her.cell.2 ⟨hV, back s hs⟩⟩

/-- The fields of a record have the property that the record has. -/
lemma lookup (her : Hereditary P) (h : P r) (sel : r.lookup l = some v) : P v := by
  induction r with
  | cell l' w r _ ihr =>
    obtain ⟨hW, hR⟩ := her.cell.1 h
    rw [Term.lookup] at sel
    split at sel
    · cases sel
      exact hW
    · exact ihr hR sel
  | _ => cases sel

/-- A step keeps the property if applying a function does. -/
lemma step (her : Hereditary P)
    (beta : ∀ {x A b a}, P (.abs x A b) → P a → P (b.subst x a)) (st : Step t t') (h : P t) :
    P t' := by
  obtain ⟨K, r, s, ct, rfl, rfl⟩ := st.exists_evalContext
  obtain ⟨part, back⟩ := her.fill h
  apply back
  cases ct with
  | beta _ =>
    obtain ⟨hF, hA⟩ := her.app.1 part
    exact beta hF hA
  | field _ sel => exact her.lookup (her.proj.1 part) sel

/-- A reduction keeps the property if the application of a function does. -/
lemma steps (her : Hereditary P)
    (beta : ∀ {x A b a}, P (.abs x A b) → P a → P (b.subst x a)) (rd : Steps t t') (h : P t) :
    P t' := by
  induction rd with
  | refl => exact h
  | tail _ st ih => exact her.step beta st ih

end Hereditary

end RecordLambda
