import RecordLambda.Static.FreeVars
import RecordLambda.Static.Typing
import RecordLambda.Proofs.OrderedMap

/-!
# The typing relation

Type inference follows one rule for each term constructor. Here these rules are read as a relation,
and `Term.infer_eq_ok_iff` says that inference finds just the type that the rules derive; so what is
known about types is proved by induction on derivations, without the blame that goes with a failure.

A context counts only for the free variables of a term: `Term.infer_congr`. This is all that is ever
needed to exchange, to drop or to add declarations. It goes for failures as well as for types, and
the free variables of a term with a type are all declared, `Typed.declared`.
-/

namespace RecordLambda

/-- The term has the type in the context. -/
inductive Typed : Env → Term → Ty → Prop where
  | var {Γ x T} :
    Γ.get? x = some T →
    T.wellFormed = .ok true →
    Typed Γ (.var x) T
  | app {Γ f a A B} :
    Typed Γ f (.arrow A B) →
    Typed Γ a A →
    Typed Γ (.app f a) B
  | abs {Γ x A b B} :
    A.wellFormed = .ok true →
    Typed (Γ.insert x A) b B →
    Typed Γ (.abs x A b) (.arrow A B)
  | proj {Γ r l R A} :
    Typed Γ r R →
    R.lookup l = some A →
    Typed Γ (.proj r l) A
  | empty {Γ} :
    Typed Γ .empty .empty
  | cell {Γ l v r A R} :
    Typed Γ v A →
    Typed Γ r R →
    R.isRecord →
    r.isRecord →
    Typed Γ (.cell l v r) (.cell l A R)

/-! ## The rules of inference, one by one -/

/-- Two rules in a row succeed if the first does and then the second. -/
lemma bind_eq_ok_iff {ε α β : Type} {x : Except ε α} {f : α → Except ε β} {b : β} :
    x >>= f = .ok b ↔ ∃ a, x = .ok a ∧ f a = .ok b := by
  cases x with
  | error e => exact ⟨nofun, nofun⟩
  | ok a => exact ⟨fun h => ⟨a, rfl, h⟩, fun ⟨_, e, h⟩ => by cases e; exact h⟩

namespace Ty

/-- The requirement is met just by well-formed types. -/
lemma requireWellFormed_eq_ok_iff {T : Ty} {e : TypingError} {u : Unit} :
    T.requireWellFormed e = .ok u ↔ T.wellFormed = .ok true := by
  unfold requireWellFormed
  split <;> simp_all

/-- The rule for variables finds the type that is declared, if it is well formed. -/
lemma ofVar_eq_ok_iff {Γ : Env} {x : String} {T : Ty} :
    ofVar Γ x = .ok T ↔ Γ.get? x = some T ∧ T.wellFormed = .ok true := by
  unfold ofVar
  cases Γ.get? x with
  | none => simp
  | some U =>
    simp only [bind_eq_ok_iff, requireWellFormed_eq_ok_iff, Option.some.injEq]
    constructor
    · rintro ⟨_, wf, eq⟩
      cases eq
      exact ⟨rfl, wf⟩
    · rintro ⟨rfl, wf⟩
      exact ⟨(), wf, rfl⟩

/-- The rule for applications finds the codomain of an arrow from the argument's type. -/
lemma ofApp_eq_ok_iff {t : Term} {F A B : Ty} : ofApp t F A = .ok B ↔ F = .arrow A B := by
  unfold ofApp
  split
  · split <;> simp_all
  · rename_i no
    exact ⟨nofun, fun e => absurd e (no A B)⟩

/-- The rule for projections finds the field that the label selects. -/
lemma ofProj_eq_ok_iff {t : Term} {l : String} {R A : Ty} :
    ofProj t l R = .ok A ↔ R.lookup l = some A := by
  unfold ofProj
  split <;> simp_all

/-- The rule for cells puts the type in front of a record type, for a rest that is a record. -/
lemma ofCell_eq_ok_iff {t r : Term} {l : String} {A R T : Ty} :
    ofCell t l A r R = .ok T ↔ (R.isRecord ∧ r.isRecord) ∧ T = .cell l A R := by
  unfold ofCell
  cases R.isRecord <;> cases r.isRecord <;> simp [eq_comm]

end Ty

/-! ## Inference decides the relation -/

namespace Term

/-- Inference finds the type that the rules derive. -/
lemma infer_eq_ok_iff {Γ : Env} {t : Term} {T : Ty} : t.infer Γ = .ok T ↔ Typed Γ t T := by
  constructor
  · intro eq
    induction t generalizing Γ T with
    | var x =>
      obtain ⟨get, wf⟩ := Ty.ofVar_eq_ok_iff.1 eq
      exact .var get wf
    | app f a ihf iha =>
      obtain ⟨F, eqF, eq⟩ := bind_eq_ok_iff.1 eq
      obtain ⟨A, eqA, eq⟩ := bind_eq_ok_iff.1 eq
      cases Ty.ofApp_eq_ok_iff.1 eq
      exact .app (ihf eqF) (iha eqA)
    | abs x A b ih =>
      obtain ⟨_, wf, eq⟩ := bind_eq_ok_iff.1 eq
      obtain ⟨B, eqB, eq⟩ := bind_eq_ok_iff.1 eq
      cases eq
      exact .abs (Ty.requireWellFormed_eq_ok_iff.1 wf) (ih eqB)
    | proj r l ih =>
      obtain ⟨R, eqR, eq⟩ := bind_eq_ok_iff.1 eq
      exact .proj (ih eqR) (Ty.ofProj_eq_ok_iff.1 eq)
    | empty => cases eq; exact .empty
    | cell l v r ihv ihr =>
      obtain ⟨A, eqA, eq⟩ := bind_eq_ok_iff.1 eq
      obtain ⟨R, eqR, eq⟩ := bind_eq_ok_iff.1 eq
      obtain ⟨⟨recT, recR⟩, rfl⟩ := Ty.ofCell_eq_ok_iff.1 eq
      exact .cell (ihv eqA) (ihr eqR) recT recR
    | hole => cases eq
  · intro ty
    induction ty with
    | var get wf => exact Ty.ofVar_eq_ok_iff.2 ⟨get, wf⟩
    | app _ _ ihf iha =>
      exact bind_eq_ok_iff.2 ⟨_, ihf, bind_eq_ok_iff.2 ⟨_, iha, Ty.ofApp_eq_ok_iff.2 rfl⟩⟩
    | abs wf _ ih =>
      exact bind_eq_ok_iff.2 ⟨(), Ty.requireWellFormed_eq_ok_iff.2 wf,
        bind_eq_ok_iff.2 ⟨_, ih, rfl⟩⟩
    | proj _ sel ih => exact bind_eq_ok_iff.2 ⟨_, ih, Ty.ofProj_eq_ok_iff.2 sel⟩
    | empty => rfl
    | cell _ _ recT recR ihv ihr =>
      exact bind_eq_ok_iff.2 ⟨_, ihv,
        bind_eq_ok_iff.2 ⟨_, ihr, Ty.ofCell_eq_ok_iff.2 ⟨⟨recT, recR⟩, rfl⟩⟩⟩

/-- The type that is found is the type by the rules. -/
lemma hasType_eq_some_iff {Γ : Env} {t : Term} {T : Ty} :
    t.hasType Γ = .ok (some T) ↔ Typed Γ t T := by
  rw [← infer_eq_ok_iff, hasType]
  cases t.infer Γ with
  | ok U => simp [typeIfAny]
  | error e => cases e <;> simp [typeIfAny]

/-! ## Contexts -/

/-- Inference looks up the free variables and nothing else. -/
lemma infer_congr {Γ Δ : Env} {t : Term} (same : ∀ x ∈ t.freeVars, Γ.get? x = Δ.get? x) :
    t.infer Γ = t.infer Δ := by
  induction t generalizing Γ Δ with
  | var x => rw [infer, infer, Ty.ofVar, Ty.ofVar, same x (mem_freeVars_var.2 rfl)]
  | app f a ihf iha =>
    rw [infer, infer, ihf fun x mem => same x (mem_freeVars_app.2 (.inl mem)),
      iha fun x mem => same x (mem_freeVars_app.2 (.inr mem))]
  | abs y A b ih =>
    rw [infer, infer, ih]
    intro x mem
    rw [OrderedMap.get?_insert, OrderedMap.get?_insert]
    split
    · rfl
    · rename_i ne
      exact same x (mem_freeVars_abs.2 ⟨mem, ne⟩)
  | proj r l ih => rw [infer, infer, ih same]
  | empty => rfl
  | cell l v r ihv ihr =>
    rw [infer, infer, ihv fun x mem => same x (mem_freeVars_cell.2 (.inl mem)),
      ihr fun x mem => same x (mem_freeVars_cell.2 (.inr mem))]
  | hole => rfl

end Term

namespace Typed

variable {Γ Δ : Env} {t : Term} {T U : Ty}

/-- A term has one type in a context. -/
lemma unique (ty : Typed Γ t T) (ty' : Typed Γ t U) : T = U := by
  rw [← Term.infer_eq_ok_iff] at ty ty'
  exact Except.ok.inj (ty.symm.trans ty')

/-- Only the declarations of the free variables matter. -/
lemma congr (ty : Typed Γ t T) (same : ∀ x ∈ t.freeVars, Γ.get? x = Δ.get? x) : Typed Δ t T := by
  rw [← Term.infer_eq_ok_iff] at ty ⊢
  rw [← Term.infer_congr same, ty]

/-- The free variables of a typed term are declared. -/
lemma declared (ty : Typed Γ t T) {x : String} (mem : x ∈ t.freeVars) : ∃ U, Γ.get? x = some U := by
  induction ty with
  | var get _ =>
    cases Term.mem_freeVars_var.1 mem
    exact ⟨_, get⟩
  | app _ _ ihf iha => exact (Term.mem_freeVars_app.1 mem).elim ihf iha
  | abs _ _ ih =>
    obtain ⟨mem, ne⟩ := Term.mem_freeVars_abs.1 mem
    obtain ⟨U, get⟩ := ih mem
    rw [OrderedMap.get?_insert, if_neg ne] at get
    exact ⟨U, get⟩
  | proj _ _ ih => exact ih mem
  | empty => exact absurd mem Term.not_mem_freeVars_empty
  | cell _ _ _ _ ihv ihr => exact (Term.mem_freeVars_cell.1 mem).elim ihv ihr

end Typed

namespace Term

/-- A context counts only for what it says about the free variables: where two of them agree on
these, inference comes to the same type, or to the same blame. A term with a type has its free
variables declared. So neither the order of declarations matters, nor a declaration that is hidden
by a later one, nor one of a name that is not free, whatever type it gives. -/
theorem infer_context_invariant (t : Term) :
    (∀ Γ Δ : Env, (∀ x ∈ t.freeVars, Γ.get? x = Δ.get? x) →
      t.infer Γ = t.infer Δ ∧ t.hasType Γ = t.hasType Δ) ∧
    (∀ (Γ : Env) (T : Ty), t.hasType Γ = .ok (some T) → ∀ x ∈ t.freeVars, Γ.contains x) ∧
    (∀ Γ Δ : Env, Γ.same Δ → t.infer Γ = t.infer Δ) ∧
    ∀ bs cs : List (String × Ty),
      (∀ x ∈ t.freeVars, OrderedMap.find x bs.reverse = OrderedMap.find x cs.reverse) →
      t.infer (OrderedMap.ofList bs) = t.infer (OrderedMap.ofList cs) := by
  refine ⟨?_, ?_, ?_, ?_⟩
  · intro Γ Δ same
    have eq := infer_congr same
    exact ⟨eq, congrArg typeIfAny eq⟩
  · intro Γ T ty x mem
    obtain ⟨U, get⟩ := (hasType_eq_some_iff.1 ty).declared mem
    exact Option.isSome_iff_exists.2 ⟨U, get⟩
  · intro Γ Δ same
    apply infer_congr
    intro x _
    exact OrderedMap.same_iff.1 same x
  · intro bs cs same
    apply infer_congr
    intro x mem
    rw [OrderedMap.get?_ofList, OrderedMap.get?_ofList, same x mem]

/-- A declaration that is hidden and one that is not used, both ill-formed; and a change of
order. -/
theorem infer_context_invariant_hidden :
    let A : Ty := .base "A"
    let bad : Ty := .cell "l" A A
    let t : Term := .app (.var "f") (.var "x")
    let bs : List (String × Ty) := [("x", bad), ("f", .arrow A A), ("y", bad), ("x", A)]
    let cs : List (String × Ty) := [("f", .arrow A A), ("x", A)]
    let Γ : Env := OrderedMap.ofList cs
    let Δ : Env := OrderedMap.ofList cs.reverse
    (∀ x ∈ t.freeVars, OrderedMap.find x bs.reverse = OrderedMap.find x cs.reverse) ∧
      (∀ x ∈ t.freeVars, Γ.get? x = Δ.get? x) ∧ Γ.same Δ ∧
      t.infer (OrderedMap.ofList bs) = t.infer Γ ∧ t.infer Γ = t.infer Δ ∧
      t.hasType Γ = t.hasType Δ ∧ t.hasType Γ = .ok (some A) ∧ Γ.contains "x" := by
  intro A bad t bs cs Γ Δ
  have last : ∀ x ∈ t.freeVars, OrderedMap.find x bs.reverse = OrderedMap.find x cs.reverse := by
    decide
  have agree : ∀ x ∈ t.freeVars, Γ.get? x = Δ.get? x := by decide
  have same : Γ.same Δ := by decide
  have ty : t.hasType Γ = .ok (some A) := rfl
  obtain ⟨agreed, bound, reordered, listed⟩ := infer_context_invariant t
  exact ⟨last, agree, same, listed bs cs last, reordered Γ Δ same, (agreed Γ Δ agree).2, ty,
    bound Γ A ty "x" (by decide)⟩

end Term

end RecordLambda
