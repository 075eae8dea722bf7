import RecordLambda.Static.Typing
import Mathlib.Tactic.Lemma

/-!
# Alpha-equivalence

Two terms are alpha-equivalent when they differ in the names of their binders only. This is said by
going down both terms at once and pairing the binders that are passed: a variable on one side has to
belong to the binder that is paired with the binder of the variable on the other side, and free
variables have to be the same.

Such terms have the same types, `Alpha.hasType_eq`, in any contexts that agree on paired variables.
Only the blame is different, since it shows names.
-/

namespace RecordLambda

/-- The names `x` and `y` are the same variable below the pairs of binders `ρ`, the innermost
first. -/
inductive SameVar : List (String × String) → String → String → Prop where
  | free {x} :
    SameVar [] x x
  | here {ρ x y} :
    SameVar ((x, y) :: ρ) x y
  | there {ρ x y x' y'} :
    x ≠ x' →
    y ≠ y' →
    SameVar ρ x y →
    SameVar ((x', y') :: ρ) x y

/-- The terms differ in the names of their binders only, below the pairs of binders `ρ`, the
innermost first. -/
inductive Alpha : List (String × String) → Term → Term → Prop where
  | var {ρ x y} :
    SameVar ρ x y →
    Alpha ρ (.var x) (.var y)
  | app {ρ f f' a a'} :
    Alpha ρ f f' →
    Alpha ρ a a' →
    Alpha ρ (.app f a) (.app f' a')
  | abs {ρ x y A b b'} :
    Alpha ((x, y) :: ρ) b b' →
    Alpha ρ (.abs x A b) (.abs y A b')
  | proj {ρ r r' l} :
    Alpha ρ r r' →
    Alpha ρ (.proj r l) (.proj r' l)
  | empty {ρ} :
    Alpha ρ .empty .empty
  | cell {ρ l v v' r r'} :
    Alpha ρ v v' →
    Alpha ρ r r' →
    Alpha ρ (.cell l v r) (.cell l v' r')
  | hole {ρ} :
    Alpha ρ .hole .hole

/-- The terms differ in the names of their binders only. -/
def AlphaEq (t u : Term) : Prop := Alpha [] t u

/-! ## Outcomes of inference -/

/-- The same type or the same fault, or no type on either side, whatever is to blame. -/
inductive SameOutcome {α : Type} : Except TypingError α → Except TypingError α → Prop where
  | ok {a} :
    SameOutcome (.ok a) (.ok a)
  | illTyped {cause cause' t t'} :
    SameOutcome (.error (.illTyped cause t)) (.error (.illTyped cause' t'))
  | notTerm {v v'} :
    SameOutcome (.error (.notTerm v)) (.error (.notTerm v'))
  | fault {f} :
    SameOutcome (.error (.fault f)) (.error (.fault f))

namespace SameOutcome

/-- Rules that have the same outcomes one after the other have the same outcome together. -/
lemma bind {α β : Type} {x y : Except TypingError α} {f g : α → Except TypingError β}
    (first : SameOutcome x y) (next : ∀ a, SameOutcome (f a) (g a)) :
    SameOutcome (x >>= f) (y >>= g) := by
  cases first with
  | ok => exact next _
  | illTyped => exact .illTyped
  | notTerm => exact .notTerm
  | fault => exact .fault

/-- The same outcome gives the same type, if any. -/
lemma typeIfAny_eq {x y : Except TypingError Ty} (same : SameOutcome x y) :
    typeIfAny x = typeIfAny y := by
  cases same <;> rfl

/-- Whether blame can be written depends on the types that it shows. -/
lemma blame {α : Type} {cause cause' : Cause} (types : cause.types = cause'.types) (t t' : Term) :
    SameOutcome (.error (blame cause t) : Except TypingError α) (.error (blame cause' t')) := by
  rw [RecordLambda.blame, RecordLambda.blame, types]
  cases cause'.types.findSome? Ty.firstHole? with
  | none => exact .illTyped
  | some f => exact .fault

/-- To require a type to be well formed has the same outcome for both terms. -/
lemma requireWellFormed {T : Ty} {cause cause' : Cause} (types : cause.types = cause'.types)
    (t t' : Term) :
    SameOutcome (T.requireWellFormed (RecordLambda.blame cause t))
      (T.requireWellFormed (RecordLambda.blame cause' t')) := by
  rw [Ty.requireWellFormed, Ty.requireWellFormed]
  rcases T.wellFormed with f | _ | _
  · exact .fault
  · exact .blame types t t'
  · exact .ok

/-- Variables that are declared with the same type have the same outcome. -/
lemma ofVar {Γ Δ : Env} {x y : String} (same : Γ.get? x = Δ.get? y) :
    SameOutcome (Ty.ofVar Γ x) (Ty.ofVar Δ y) := by
  rw [Ty.ofVar, Ty.ofVar, same]
  cases Δ.get? y with
  | none => exact .illTyped
  | some T =>
    refine bind ?_ fun _ => .ok
    apply requireWellFormed
    rfl

/-- The rule for applications looks at the types only. -/
lemma ofApp (t t' : Term) (F A : Ty) : SameOutcome (Ty.ofApp t F A) (Ty.ofApp t' F A) := by
  cases F with
  | arrow P B =>
    rw [Ty.ofApp, Ty.ofApp]
    split
    · exact .ok
    · exact .blame rfl t t'
  | _ => exact .blame rfl t t'

lemma ofProj (t t' : Term) (l : String) (R : Ty) :
    SameOutcome (Ty.ofProj t l R) (Ty.ofProj t' l R) := by
  rw [Ty.ofProj, Ty.ofProj]
  cases R.lookup l with
  | none => exact .blame rfl t t'
  | some A => exact .ok

lemma ofCell (t t' : Term) (l : String) (A R : Ty) {r r' : Term}
    (shape : r.isRecord = r'.isRecord) :
    SameOutcome (Ty.ofCell t l A r R) (Ty.ofCell t' l A r' R) := by
  rw [Ty.ofCell, Ty.ofCell, shape]
  split
  · exact .blame rfl t t'
  · split
    · exact .illTyped
    · exact .ok

end SameOutcome

/-! ## What does not depend on the names of binders -/

namespace Alpha

variable {ρ : List (String × String)} {t u : Term}

/-- Alpha-equivalent terms are both records or both not. -/
lemma isRecord_eq (al : Alpha ρ t u) : t.isRecord = u.isRecord := by
  cases al <;> rfl

/-- Alpha-equivalent terms are both concrete or both not. -/
lemma concrete_eq (al : Alpha ρ t u) : t.concrete = u.concrete := by
  induction al with
  | var _ => rfl
  | app _ _ ihf iha => rw [Term.concrete, Term.concrete, ihf, iha]
  | abs _ ih => rw [Term.concrete, Term.concrete, ih]
  | proj _ ih => exact ih
  | empty => rfl
  | cell _ _ ihv ihr => rw [Term.concrete, Term.concrete, ihv, ihr]
  | hole => rfl

/-- The contexts agree on the variables that are the same below `ρ`. -/
def Agree (ρ : List (String × String)) (Γ Δ : Env) : Prop :=
  ∀ x y, SameVar ρ x y → Γ.get? x = Δ.get? y

lemma Agree.nil (Γ : Env) : Agree [] Γ Γ := by
  intro x y same
  cases same
  rfl

/-- Binders that are related get the same type. -/
lemma Agree.cons {Γ Δ : Env} (ag : Agree ρ Γ Δ) (x y : String) (A : Ty) :
    Agree ((x, y) :: ρ) (Γ.insert x A) (Δ.insert y A) := by
  intro w z same
  rw [OrderedMap.get?_insert, OrderedMap.get?_insert]
  cases same with
  | here => rw [if_pos rfl, if_pos rfl]
  | there neX neY same => rw [if_neg neX, if_neg neY, ag w z same]

/-- Inference on alpha-equivalent terms has the same outcome. -/
lemma infer_sameOutcome {Γ Δ : Env} (al : Alpha ρ t u) (ag : Agree ρ Γ Δ) :
    SameOutcome (t.infer Γ) (u.infer Δ) := by
  induction al generalizing Γ Δ with
  | var same => exact .ofVar (ag _ _ same)
  | app _ _ ihf iha =>
    exact (ihf ag).bind fun F => (iha ag).bind fun A => .ofApp _ _ F A
  | abs _ ih =>
    refine SameOutcome.bind ?_ fun _ => (ih (ag.cons _ _ _)).bind fun _ => .ok
    apply SameOutcome.requireWellFormed
    rfl
  | proj _ ih => exact (ih ag).bind fun R => .ofProj _ _ _ R
  | empty => exact .ok
  | cell _ alR ihv ihr =>
    exact (ihv ag).bind fun A => (ihr ag).bind fun R => .ofCell _ _ _ A R alR.isRecord_eq
  | hole => exact .notTerm

/-- Alpha-equivalent terms have the same type, if they have any. -/
lemma hasType_eq {Γ Δ : Env} (al : Alpha ρ t u) (ag : Agree ρ Γ Δ) : t.hasType Γ = u.hasType Δ :=
  (al.infer_sameOutcome ag).typeIfAny_eq

end Alpha

end RecordLambda
