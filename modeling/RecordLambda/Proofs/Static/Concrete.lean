import RecordLambda.Proofs.Static.WellFormed

/-!
# Inference on concrete syntax

On concrete syntax inference decides the typing relation: it comes to the type that the rules
derive, or to blame where they derive none, and to nothing else. A fault would need a hole, in a
type whose well-formedness is asked for or in a type that the blame is to show; but these types come
from the context, from annotations and from what was inferred before, which is concrete by
`Typed.concrete_ty`.

The values of a chain can be typed in one pass that looks at the shape of the end only and puts the
type together from there. This pass is `Term.inferAlong`; the rule of cells asks for the shape of
every rest, but what has cells in front is a record, and so is its type.
-/

namespace RecordLambda

/-! ## Concrete types -/

namespace Ty

variable {A R T : Ty} {l : String}

/-- Asking whether a concrete type is well formed is no fault. -/
lemma exists_wellFormed_eq_ok (con : T.concrete) : ∃ ok, T.wellFormed = .ok ok :=
  ⟨T.formed, wellFormed_eq_formed con⟩

/-- The fields of a concrete type are concrete. -/
lemma concrete_lookup (con : R.concrete) (sel : R.lookup l = some A) : A.concrete :=
  lookup_inherits (P := fun T => T.concrete) concrete_cell.1 con sel

end Ty

/-- No declared type has a hole. -/
def Env.Concrete (Γ : Env) : Prop := ∀ x T, Γ.get? x = some T → T.concrete

/-- A context stays concrete with a concrete type. -/
lemma Env.Concrete.insert {Γ : Env} {x : String} {A : Ty} (conΓ : Env.Concrete Γ)
    (con : A.concrete) : Env.Concrete (Γ.insert x A) := by
  intro y T get
  rw [OrderedMap.get?_insert] at get
  split at get
  · cases get
    exact con
  · exact conΓ y T get

/-! ## Typed terms -/

namespace Typed

variable {Γ : Env} {t : Term} {T : Ty}

/-- A typed term has no hole: there is no rule for one, and an annotation is well formed. -/
lemma concrete (ty : Typed Γ t T) : t.concrete := by
  induction ty with
  | var _ _ => rfl
  | app _ _ ihf iha => exact Term.concrete_app.2 ⟨ihf, iha⟩
  | abs wf _ ih => exact Term.concrete_abs.2 ⟨Ty.concrete_of_wellFormed wf, ih⟩
  | proj _ _ ih => exact Term.concrete_proj.2 ih
  | empty => rfl
  | cell _ _ _ _ ihv ihr => exact Term.concrete_cell.2 ⟨ihv, ihr⟩

/-- The type of a term has no hole, whatever the context declares. -/
lemma concrete_ty (ty : Typed Γ t T) : T.concrete := by
  induction ty with
  | var _ wf => exact Ty.concrete_of_wellFormed wf
  | app _ _ ihf _ => exact (Ty.concrete_arrow.1 ihf).2
  | abs wf _ ih => exact Ty.concrete_arrow.2 ⟨Ty.concrete_of_wellFormed wf, ih⟩
  | proj _ sel ih => exact Ty.concrete_lookup ih sel
  | empty => rfl
  | cell _ _ _ _ ihv ihr => exact Ty.concrete_cell.2 ⟨ihv, ihr⟩

end Typed

/-! ## Blame -/

/-- The only way to fail is to blame a term. -/
def OnlyBlames {α : Type} (x : Except TypingError α) : Prop :=
  ∀ e, x = .error e → ∃ cause t, e = .illTyped cause t

lemma onlyBlames_ok {α : Type} (a : α) : OnlyBlames (.ok a) := nofun

/-- Two rules in a row have no fault if neither has. -/
lemma OnlyBlames.bind {α β : Type} {x : Except TypingError α} {f : α → Except TypingError β}
    (first : OnlyBlames x) (next : ∀ a, x = .ok a → OnlyBlames (f a)) : OnlyBlames (x >>= f) := by
  cases x with
  | error e =>
    intro e' eq
    cases eq
    exact first e rfl
  | ok a => exact next a rfl

/-- Blame that shows concrete types only can be written. -/
lemma onlyBlames_blame {α : Type} (cause : Cause) (t : Term)
    (con : ∀ T ∈ cause.types, T.concrete) :
    OnlyBlames (.error (blame cause t) : Except TypingError α) := by
  have written : cause.types.findSome? Ty.firstHole? = none :=
    List.findSome?_eq_none_iff.2 fun T mem => (Ty.firstHole?_eq_none_iff T).2 (con T mem)
  intro e eq
  cases eq
  rw [blame, written]
  exact ⟨cause, t, rfl⟩

namespace Ty

variable {A F R T : Ty} {l x : String} {t r : Term} {Γ : Env}

/-- Whether a concrete type is well formed can be said without a fault. -/
lemma onlyBlames_requireWellFormed {cause : Cause} (con : T.concrete) (types : cause.types = [T]) :
    OnlyBlames (T.requireWellFormed (blame cause t)) := by
  obtain ⟨ok, eq⟩ := exists_wellFormed_eq_ok con
  rw [requireWellFormed, eq]
  cases ok with
  | true => exact onlyBlames_ok ()
  | false =>
    apply onlyBlames_blame
    rw [types]
    simpa using con

/-- In a concrete context the rule for variables has no fault. -/
lemma onlyBlames_ofVar (conΓ : Env.Concrete Γ) : OnlyBlames (ofVar Γ x) := by
  rw [ofVar]
  cases get : Γ.get? x with
  | none => exact onlyBlames_blame (.unbound x) _ (List.forall_mem_nil _)
  | some T =>
    exact (onlyBlames_requireWellFormed (conΓ x T get) rfl).bind fun _ _ => onlyBlames_ok T

lemma onlyBlames_ofApp (conF : F.concrete) (conA : A.concrete) : OnlyBlames (ofApp t F A) := by
  cases F with
  | arrow P B =>
    rw [ofApp]
    split
    · exact onlyBlames_ok B
    · apply onlyBlames_blame
      simpa [Cause.types] using ⟨conA, (concrete_arrow.1 conF).1⟩
  | _ =>
    apply onlyBlames_blame
    simpa [Cause.types] using conF

lemma onlyBlames_ofProj (con : R.concrete) : OnlyBlames (ofProj t l R) := by
  rw [ofProj]
  split
  · exact onlyBlames_ok _
  · apply onlyBlames_blame
    simpa [Cause.types] using con

lemma onlyBlames_ofCell (con : R.concrete) : OnlyBlames (ofCell t l A r R) := by
  rw [ofCell]
  split
  · apply onlyBlames_blame
    simpa [Cause.types] using con
  · split
    · exact onlyBlames_blame .restTerm _ (List.forall_mem_nil _)
    · exact onlyBlames_ok _

end Ty

namespace Term

variable {Γ : Env} {t : Term}

/-- Inference on concrete syntax fails by blame only. -/
lemma onlyBlames_infer (conΓ : Env.Concrete Γ) (con : t.concrete) : OnlyBlames (t.infer Γ) := by
  have conTy : ∀ {Γ : Env} {t : Term} {T : Ty}, t.infer Γ = .ok T → T.concrete :=
    fun eq => (infer_eq_ok_iff.1 eq).concrete_ty
  induction t generalizing Γ with
  | var x => exact Ty.onlyBlames_ofVar conΓ
  | app f a ihf iha =>
    obtain ⟨conF, conA⟩ := concrete_app.1 con
    refine (ihf conΓ conF).bind fun F eqF => (iha conΓ conA).bind fun A eqA => ?_
    exact Ty.onlyBlames_ofApp (conTy eqF) (conTy eqA)
  | abs x A b ih =>
    obtain ⟨conA, conB⟩ := concrete_abs.1 con
    refine (Ty.onlyBlames_requireWellFormed conA rfl).bind fun _ _ => ?_
    exact (ih (conΓ.insert conA) conB).bind fun B _ => onlyBlames_ok _
  | proj r l ih =>
    exact (ih conΓ (concrete_proj.1 con)).bind fun R eqR => Ty.onlyBlames_ofProj (conTy eqR)
  | empty => exact onlyBlames_ok _
  | cell l v r ihv ihr =>
    obtain ⟨conV, conR⟩ := concrete_cell.1 con
    refine (ihv conΓ conV).bind fun A _ => (ihr conΓ conR).bind fun R eqR => ?_
    exact Ty.onlyBlames_ofCell (conTy eqR)
  | hole => cases con

/-! ## One pass along a chain -/

/-- The type of a chain of which the cells before `t` were already passed: `done` are their labels
with the types of their values, and `last` is the chain from the last of them on. -/
def inferAlong (Γ : Env) : Term → List (String × Ty) → Term → Except TypingError Ty
  | t@(cell l v r), done, _ => do
    let A ← v.infer Γ
    inferAlong Γ r (done ++ [(l, A)]) t
  | t, done, last => do
    let R ← t.infer Γ
    if !R.isRecord then .error (blame (.restType R) last)
    else if !t.isRecord then .error (blame .restTerm last)
    else return Ty.ofFields done R

/-- At the end of a chain the pass checks what the rule of cells asks for at the last cell. -/
lemma inferAlong_end (done : List (String × Ty)) (l : String) (A : Ty) (last r : Term) (R : Ty) :
    (if !R.isRecord then .error (blame (.restType R) last)
      else if !r.isRecord then .error (blame .restTerm last)
      else return Ty.ofFields (done ++ [(l, A)]) R) =
    (do return Ty.ofFields done (← Ty.ofCell last l A r R)) := by
  have build : Ty.ofFields (done ++ [(l, A)]) R = Ty.ofFields done (.cell l A R) :=
    List.foldr_append
  rw [build, Ty.ofCell]
  cases R.isRecord with
  | false => rfl
  | true => cases r.isRecord <;> rfl

/-- Behind a cell, the pass comes to what the rule of cells says for it. -/
lemma inferAlong_append (done : List (String × Ty)) (l : String) (A : Ty) (last r : Term) :
    r.inferAlong Γ (done ++ [(l, A)]) last = (do
      let R ← r.infer Γ
      return Ty.ofFields done (← Ty.ofCell last l A r R)) := by
  induction r generalizing done l A last with
  | cell l' v r _ ihr =>
    rw [inferAlong, infer]
    rcases v.infer Γ with e | A'
    · rfl
    · show r.inferAlong Γ (done ++ [(l, A)] ++ [(l', A')]) (cell l' v r) = _
      rw [ihr]
      rcases r.infer Γ with e | R'
      · rfl
      · -- what has a cell in front is a record and has a record type
        rcases eq : Ty.ofCell (cell l' v r) l' A' r R' with e | T'
        · simp only [bind, Except.bind, eq]
        · simp only [bind, Except.bind, eq]
          obtain ⟨_, rfl⟩ := Ty.ofCell_eq_ok_iff.1 eq
          exact inferAlong_end done l A last (cell l' v r) (.cell l' A' R')
  | _ =>
    rw [inferAlong]
    · congr 1
      funext R
      exact inferAlong_end done l A last _ R
    · intro _ _ _ eq
      cases eq

/-- One pass along a record finds its type. -/
lemma inferAlong_nil (rec : t.isRecord) : t.inferAlong Γ [] t = t.infer Γ := by
  cases t with
  | empty => rfl
  | cell l v r =>
    rw [inferAlong, infer]
    congr 1
    funext A
    exact (inferAlong_append [] l A (cell l v r) r).trans (by simp [Ty.ofFields])
  | _ => cases rec

/-! ## Deciding the typing relation -/

/-- Without holes, what has no type is blamed for it. -/
lemma infer_eq_illTyped_iff (conΓ : Env.Concrete Γ) (con : t.concrete) :
    (∃ cause u, t.infer Γ = .error (.illTyped cause u)) ↔ ¬∃ T, Typed Γ t T := by
  simp only [← infer_eq_ok_iff]
  rcases eq : t.infer Γ with e | T
  · obtain ⟨cause, u, rfl⟩ := onlyBlames_infer conΓ con e eq
    exact ⟨fun _ => nofun, fun _ => ⟨cause, u, rfl⟩⟩
  · exact ⟨nofun, fun no => absurd ⟨T, rfl⟩ no⟩

/-- Whether there is a type is answered by what inference comes to. -/
lemma hasType_of_onlyBlames (only : OnlyBlames (t.infer Γ)) :
    t.hasType Γ = .ok (t.infer Γ).toOption := by
  rw [hasType]
  rcases eq : t.infer Γ with e | T
  · obtain ⟨cause, u, rfl⟩ := only e eq
    rfl
  · rfl

/-- On concrete syntax inference decides the typing relation. It comes to the type that is
derivable; if none is, it blames a term, and there is said to be no type; and it comes to nothing
else. The type of a record is found in one pass along it. -/
theorem hasType_decides {Γ : Env} {t : Term} (conΓ : Env.Concrete Γ) (con : t.concrete) :
    (∀ T, t.hasType Γ = .ok (some T) ↔ Typed Γ t T) ∧
      (t.hasType Γ = .ok none ↔ ¬∃ T, Typed Γ t T) ∧
      (∀ f, t.hasType Γ ≠ .error f) ∧
      (∀ T, t.infer Γ = .ok T ↔ Typed Γ t T) ∧
      ((∃ cause u, t.infer Γ = .error (.illTyped cause u)) ↔ ¬∃ T, Typed Γ t T) ∧
      OnlyBlames (t.infer Γ) ∧
      (t.isRecord → t.inferAlong Γ [] t = t.infer Γ) := by
  have only := onlyBlames_infer conΓ con
  have has := hasType_of_onlyBlames only
  refine ⟨fun T => hasType_eq_some_iff, ?_, ?_, fun T => infer_eq_ok_iff,
    infer_eq_illTyped_iff conΓ con, only, inferAlong_nil⟩
  · rw [← infer_eq_illTyped_iff conΓ con, has]
    rcases eq : t.infer Γ with e | T
    · obtain ⟨cause, u, rfl⟩ := only e eq
      exact ⟨fun _ => ⟨cause, u, rfl⟩, fun _ => rfl⟩
    · exact ⟨nofun, nofun⟩
  · intro f
    rw [has]
    exact nofun

/-- A rest that has a record type and is no record term. -/
theorem hasType_decides_rest :
    let Γ : Env := OrderedMap.ofList [("r", .cell "s" .empty .empty)]
    let t : Term := .cell "a" (.var "r") (.proj (.var "r") "s")
    Env.Concrete Γ ∧ t.concrete ∧ t.hasType Γ = .ok none ∧ ¬∃ T, Typed Γ t T := by
  intro Γ t
  have conΓ : Env.Concrete Γ := Env.Concrete.insert nofun rfl
  have con : t.concrete := rfl
  have has : t.hasType Γ = .ok none := rfl
  exact ⟨conΓ, con, has, (hasType_decides conΓ con).2.1.1 has⟩

end Term

end RecordLambda
