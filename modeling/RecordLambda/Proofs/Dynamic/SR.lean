import RecordLambda.Program
import RecordLambda.Proofs.Dynamic.Concrete
import RecordLambda.Proofs.Static.Canonical
import RecordLambda.Proofs.Static.Concrete

/-!
# Subject reduction

A step keeps the type, in every context and so for open terms too. The core is the substitution
lemma `Typed.substituted`, by induction on the rules of substitution: a binder that is renamed has
its declaration moved, which is allowed since a context only counts for free variables. From one
step `Typed.sr` goes over to any number of them, `Typed.rd`, and thereby to all the terms of a run.
-/

namespace RecordLambda

namespace Typed

variable {Γ : Env} {t t' v r : Term} {x : String} {S T U : Ty}

/-! ## Substitution -/

/-- A declaration of a name that is not free goes unseen. -/
lemma get?_insert_of_not_mem (out : x ∉ t.freeVars) :
    ∀ w ∈ t.freeVars, (Γ.insert x U).get? w = Γ.get? w := by
  intro w mem
  rw [OrderedMap.get?_insert, if_neg]
  rintro rfl
  exact out mem

/-- A variable that is not free may be declared. -/
lemma weaken (ty : Typed Γ t T) (out : x ∉ t.freeVars) : Typed (Γ.insert x U) t T :=
  ty.congr fun w mem => (get?_insert_of_not_mem out w mem).symm

/-- The declaration of a variable that is not free may be dropped. -/
lemma strengthen (ty : Typed (Γ.insert x U) t T) (out : x ∉ t.freeVars) : Typed Γ t T :=
  ty.congr (get?_insert_of_not_mem out)

/-- Declarations of different names may be exchanged. -/
lemma exchange {y : String} {A : Ty} (ty : Typed ((Γ.insert x U).insert y A) t T) (ne : y ≠ x) :
    Typed ((Γ.insert y A).insert x U) t T := by
  apply ty.congr
  intro w _
  simp only [OrderedMap.get?_insert]
  by_cases e : w = x
  · have ne' : w ≠ y := fun e' => ne (e'.symm.trans e)
    rw [if_neg ne', if_pos e, if_pos e]
  · rw [if_neg e, if_neg e]

/-- Putting a term of the declared type for a variable keeps the type. -/
lemma substituted (sub : Substituted x v t r) (ty : Typed (Γ.insert x U) t S) (tyV : Typed Γ v U) :
    Typed Γ r S := by
  induction sub generalizing Γ U S with
  | varHit =>
    cases ty with
    | var get wf =>
      rw [OrderedMap.get?_insert, if_pos rfl] at get
      cases get
      exact tyV
  | varMiss ne =>
    cases ty with
    | var get wf =>
      rw [OrderedMap.get?_insert, if_neg ne] at get
      exact .var get wf
  | app _ _ ihf iha =>
    cases ty with
    | app tyF tyA => exact .app (ihf tyF tyV) (iha tyA tyV)
  | absKeep out => exact ty.strengthen out
  | @absRename x v y z A b b' r ne mem cap newV newB newX _ _ ihb ihr =>
    cases ty with
    | @abs _ _ _ _ B wf tyB =>
      -- the declaration of `z` comes before all others, where `b` does not ask for it
      have tyB' : Typed (((Γ.insert z A).insert x U).insert y A) b B := by
        apply tyB.congr
        intro w memW
        have ne' : w ≠ z := fun e => newB (e ▸ memW)
        simp only [OrderedMap.get?_insert, if_neg ne']
      have tyZ : Typed ((Γ.insert z A).insert x U) (.var z) A := by
        refine .var ?_ wf
        rw [OrderedMap.get?_insert, if_neg newX, OrderedMap.get?_insert, if_pos rfl]
      exact .abs wf (ihr (ihb tyB' tyZ) (tyV.weaken newV))
  | absDown ne mem out _ ih =>
    cases ty with
    | abs wf tyB => exact .abs wf (ih (tyB.exchange ne) (tyV.weaken out))
  | proj _ ih =>
    cases ty with
    | proj tyR sel => exact .proj (ih tyR tyV) sel
  | empty => cases ty; exact .empty
  | cell _ subR ihw ihr =>
    cases ty with
    | cell tyW tyR recT recR =>
      exact .cell (ihw tyW tyV) (ihr tyR tyV) recT (subR.isRecord recR)
  | hole => cases ty

/-- Substitution keeps the type. -/
lemma subst (ty : Typed (Γ.insert x U) t S) (tyV : Typed Γ v U) : Typed Γ (t.subst x v) S :=
  ty.substituted (Term.substituted_subst x v t) tyV

/-! ## Steps -/

/-- The field that a label selects in a record has the type that it selects in the type. -/
lemma lookup {R A : Ty} {l : String} (ty : Typed Γ r R) (sel : r.lookup l = some v)
    (selT : R.lookup l = some A) : Typed Γ v A := by
  have recR : r.isRecord := by
    cases r with
    | cell _ _ _ => rfl
    | _ => cases sel
  obtain ⟨w, sel', tyW⟩ := (ty.lookup_eq_some_iff recR).1 selT
  cases sel.symm.trans sel'
  exact tyW

/-- A step keeps the type. -/
lemma sr (ty : Typed Γ t T) (st : Step t t') : Typed Γ t' T := by
  induction ty generalizing t' with
  | var _ _ => cases st
  | app tyF tyA ihf iha =>
    cases st with
    | appFn st => exact .app (ihf st) tyA
    | appArg _ st => exact .app tyF (iha st)
    | beta _ =>
      cases tyF with
      | abs _ tyB => exact tyB.subst tyA
  | abs _ _ _ => cases st
  | proj tyR sel ih =>
    cases st with
    | projRecord st => exact .proj (ih st) sel
    | projField _ selR => exact tyR.lookup selR sel
  | empty => cases st
  | cell tyV tyR recT recR ihv ihr =>
    cases st with
    | cellValue st => exact .cell (ihv st) tyR recT recR
    | cellRest _ st => exact .cell tyV (ihr st) recT (st.isRecord recR)

/-- Any number of steps keeps the type. -/
lemma rd (ty : Typed Γ t T) (rd : Steps t t') : Typed Γ t' T := by
  induction rd with
  | refl => exact ty
  | tail _ st ih => exact ih.sr st

/-! ## Runs -/

/-- Evaluating a typed term hands out a run under every limit, since there is no hole to be met. -/
lemma handsOut (ty : Typed Γ t T) (limit : Limit) : ∃ r, HandsOut limit t r :=
  Term.exists_handsOut ty.concrete limit

end Typed

/-! ## Programs -/

/-- To rename errors keeps the results. -/
lemma mapError_eq_ok_iff {ε ε' α : Type} {f : ε → ε'} {x : Except ε α} {a : α} :
    x.mapError f = .ok a ↔ x = .ok a := by
  cases x <;> simp [Except.mapError]

/-- What is announced has the result that it has without the announcement. -/
lemma announced_eq_ok {α : Type} {verbose : Bool} {name : String} {v : Value}
    {part : List String × Except PassError α} {a : α}
    (eq : (announced verbose name v part).2 = .ok a) : part.2 = .ok a := by
  unfold announced at eq
  split at eq
  · split at eq
    · cases eq
    · exact eq
  · exact eq

/-- An evaluation that is shown line by line comes to what it comes to unseen. -/
lemma Value.evaluate_of_evaluateAloud {limit : Limit} {v : Value} {r : Run}
    (eq : (v.evaluateAloud limit).2 = .ok r) : v.evaluate limit = .ok r := by
  unfold evaluateAloud at eq
  split at eq
  · cases eq
  · split at eq
    · rename_i ev
      cases eq
      exact ev
    all_goals cases eq

/-- A program that comes to a type and a run has that type, and evaluating it comes to that run. -/
lemma Value.infer_evaluate_of_runProgram {Γ : Env} {limit : Limit} {verbose : Bool} {v : Value}
    {T : Ty} {r : Run} (eq : (v.runProgram Γ limit verbose).2 = .ok (T, r)) :
    v.infer Γ = .ok T ∧ v.evaluate limit = .ok r := by
  rcases typed : announced verbose BuiltIn.typing.name v ([], (v.infer Γ).mapError PassError.typing)
    with ⟨lines, e | U⟩
  · simp only [runProgram, typed] at eq
    cases eq
  · rcases out : (if verbose then v.evaluateAloud limit else ([], v.evaluate limit)) with ⟨more, r'⟩
    simp only [runProgram, typed, out] at eq
    rcases ran : (announced verbose (BuiltIn.evaluator verbose 0).name v
      (more, r'.mapError PassError.eval)).2 with e | r''
    · rw [ran] at eq
      cases eq
    · rw [ran] at eq
      cases eq
      have ty := mapError_eq_ok_iff.1 (announced_eq_ok (congrArg Prod.snd typed))
      have ev : r' = .ok r := mapError_eq_ok_iff.1 (announced_eq_ok ran)
      refine ⟨ty, ?_⟩
      cases verbose with
      | false => rw [← ev]; exact congrArg Prod.snd out
      | true => exact evaluate_of_evaluateAloud ((congrArg Prod.snd out).trans ev)

namespace Term

/-- A step keeps the type, whatever the context. So does a run, whether it comes to an end or is
broken off: under every limit there is one, and all its terms have the type of the first. So does
the run of a program, whose terms have the type that the program came to. -/
theorem hasType_preserved (Γ : Env) (t : Term) :
    (∀ T, t.hasType Γ = .ok (some T) →
      (∀ t', t.step = .ok (some t') → t'.hasType Γ = .ok (some T)) ∧
      ∀ limit, (∃ r, HandsOut limit t r) ∧
        ∀ r, HandsOut limit t r → ∀ u ∈ r.trace, u.hasType Γ = .ok (some T)) ∧
    ∀ limit verbose T r, ((Value.node t).runProgram Γ limit verbose).2 = .ok (T, r) →
      t.hasType Γ = .ok (some T) ∧ ∀ u ∈ r.trace, u.hasType Γ = .ok (some T) := by
  have run : ∀ {T limit r}, Typed Γ t T → HandsOut limit t r →
      ∀ u ∈ r.trace, u.hasType Γ = .ok (some T) := by
    intro T limit r ty out u mem
    exact hasType_eq_some_iff.2 (ty.rd (steps_of_handsOut out mem))
  constructor
  · intro T ty
    have ty := hasType_eq_some_iff.1 ty
    refine ⟨?_, fun limit => ⟨ty.handsOut limit, fun r => run ty⟩⟩
    intro t' eq
    exact hasType_eq_some_iff.2 (ty.sr (step_sound eq))
  · intro limit verbose T r eq
    obtain ⟨inf, ev⟩ := Value.infer_evaluate_of_runProgram eq
    have ty := infer_eq_ok_iff.1 inf
    exact ⟨hasType_eq_some_iff.2 ty, run ty (.done ev)⟩

/-- A step that renames a binder: the argument has `y` free, and it is put below a binder of `y`. -/
theorem hasType_preserved_renaming :
    let Γ : Env := OrderedMap.ofList [("y", .base "A")]
    let T : Ty := .arrow (.base "B") (.arrow (.base "A") (.base "A"))
    let t : Term := .app
      (.abs "x" (.arrow (.base "A") (.base "A")) (.abs "y" (.base "B") (.var "x")))
      (.abs "w" (.base "A") (.var "y"))
    let t' : Term := .abs "y'" (.base "B") (.abs "w" (.base "A") (.var "y"))
    t.hasType Γ = .ok (some T) ∧ t.step = .ok (some t') ∧ t'.hasType Γ = .ok (some T) := by
  intro Γ T t t'
  have ty : t.hasType Γ = .ok (some T) := rfl
  have st : t.step = .ok (some t') := by cbv
  exact ⟨ty, st, ((hasType_preserved Γ t).1 T ty).1 t' st⟩

end Term

end RecordLambda
