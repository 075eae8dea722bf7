import RecordLambda.Proofs.Dynamic.SR
import Mathlib.Logic.Function.Basic

/-!
# Normalization

Every typed term without free variables has a run that comes to a value. A step may copy an argument
and make the term larger, so it is not the size that gets smaller on the way. Instead a relation is
defined by recursion on the type: a function belongs to its type when it takes the values that
belong to the domain to terms that reduce to values that belong to the codomain. All typed terms
reduce to a value of this kind once values of this kind are put for their free variables:
`Typed.normalizes`, by induction on the typing.

The values that are put in are closed, so they are put in all at once and without renaming.
-/

namespace RecordLambda

/-! ## Closing a term -/

namespace Term

variable {γ : String → Option Term} {t v : Term} {x : String}

/-- Puts closed terms for free variables. A binder stands for itself. -/
def close (γ : String → Option Term) : Term → Term
  | var x => (γ x).getD (var x)
  | app f a => app (f.close γ) (a.close γ)
  | abs x A b => abs x A (b.close (Function.update γ x none))
  | proj r l => proj (r.close γ) l
  | empty => empty
  | cell l v r => cell l (v.close γ) (r.close γ)
  | hole => hole

/-- With nothing to put in, a term stays as it is. -/
lemma close_none (t : Term) : t.close (fun _ => none) = t := by
  induction t with
  | var x => rfl
  | app f a ihf iha => rw [close, ihf, iha]
  | abs x A b ih =>
    have same : Function.update (fun _ => none) x none = fun _ : String => (none : Option Term) :=
      Function.update_eq_self x _
    rw [close, same, ih]
  | proj r l ih => rw [close, ih]
  | empty => rfl
  | cell l v r ihv ihr => rw [close, ihv, ihr]
  | hole => rfl

/-- Only closed terms are put in. -/
def AllClosed (γ : String → Option Term) : Prop := ∀ y w, γ y = some w → w.closed

/-- A closed term may be put in or a variable be hidden, and the substitution is still by closed
terms. -/
lemma AllClosed.update {o : Option Term} (cl : AllClosed γ) (clO : ∀ w, o = some w → w.closed) :
    AllClosed (Function.update γ x o) := by
  intro y w eq
  by_cases e : y = x
  · rw [e, Function.update_self] at eq
    exact clO w eq
  · rw [Function.update_of_ne e] at eq
    exact cl y w eq

lemma AllClosed.hide (cl : AllClosed γ) (x : String) : AllClosed (Function.update γ x none) :=
  cl.update nofun

lemma AllClosed.put (cl : AllClosed γ) (clV : v.closed) :
    AllClosed (Function.update γ x (some v)) := by
  apply cl.update
  rintro w ⟨⟩
  exact clV

/-- What is still free is a free variable that nothing was put for. -/
lemma freeVars_close (cl : AllClosed γ) (mem : x ∈ (t.close γ).freeVars) :
    x ∈ t.freeVars ∧ γ x = none := by
  induction t generalizing γ with
  | var y =>
    rw [close] at mem
    cases eq : γ y with
    | none =>
      rw [eq] at mem
      cases mem_freeVars_var.1 mem
      exact ⟨mem, eq⟩
    | some w =>
      rw [eq] at mem
      exact absurd mem (closed_iff.1 (cl y w eq) x)
  | app f a ihf iha =>
    rcases mem_freeVars_app.1 mem with mem | mem
    · exact ⟨mem_freeVars_app.2 (.inl (ihf cl mem).1), (ihf cl mem).2⟩
    · exact ⟨mem_freeVars_app.2 (.inr (iha cl mem).1), (iha cl mem).2⟩
  | abs y A b ih =>
    obtain ⟨mem, ne⟩ := mem_freeVars_abs.1 mem
    obtain ⟨mem, eq⟩ := ih (cl.hide y) mem
    rw [Function.update_of_ne ne] at eq
    exact ⟨mem_freeVars_abs.2 ⟨mem, ne⟩, eq⟩
  | proj r l ih => exact ih cl mem
  | empty => exact absurd mem not_mem_freeVars_empty
  | cell l v r ihv ihr =>
    rcases mem_freeVars_cell.1 mem with mem | mem
    · exact ⟨mem_freeVars_cell.2 (.inl (ihv cl mem).1), (ihv cl mem).2⟩
    · exact ⟨mem_freeVars_cell.2 (.inr (ihr cl mem).1), (ihr cl mem).2⟩
  | hole => exact absurd mem not_mem_freeVars_hole

/-- One more closed term may be put in afterwards. -/
lemma subst_close (cl : AllClosed γ) (clV : v.closed) :
    (t.close (Function.update γ x none)).subst x v = t.close (Function.update γ x (some v)) := by
  induction t generalizing γ with
  | var y =>
    by_cases e : y = x
    · subst e
      simp only [close, Function.update_self, Option.getD_none, Option.getD_some]
      rw [subst_var, if_pos rfl]
    · simp only [close, Function.update_of_ne e]
      cases eq : γ y with
      | none => rw [Option.getD_none, subst_var, if_neg e]
      | some w => exact subst_of_not_mem (closed_iff.1 (cl y w eq) x)
  | app f a ihf iha => rw [close, subst_app, ihf cl, iha cl, close]
  | abs y A b ih =>
    by_cases e : y = x
    · subst e
      rw [close, close, Function.update_idem, Function.update_idem, subst_abs, if_pos (.inl rfl)]
    · have ne := Ne.symm e
      rw [close, close, Function.update_comm ne, Function.update_comm ne, ← ih (cl.hide y),
        subst_abs]
      split
      case isTrue keep => rw [subst_of_not_mem (keep.resolve_left e)]
      -- `v` is closed, so its variables are not in the way of the binder
      case isFalse _ => rw [if_neg (closed_iff.1 clV y)]
  | proj r l ih => rw [close, subst_proj, ih cl, close]
  | empty => rw [close, subst_empty, close]
  | cell l w r ihw ihr => rw [close, subst_cell, ihw cl, ihr cl, close]
  | hole => rw [close, subst_hole, close]

end Term

/-! ## Reducible values -/

/-- The values that belong to a type. Those of a function type are judged by what they do, for which
they have to be closed. -/
def Ty.Reducible : Ty → Term → Prop
  | .base _, _ => False
  | .arrow A B, v =>
    v.closed ∧ ∃ x D b, v = .abs x D b ∧
      ∀ a, A.Reducible a → ∃ u, Steps (b.subst x a) u ∧ B.Reducible u
  | .empty, v => v = .empty
  | .cell l A R, v => ∃ w r, v = .cell l w r ∧ A.Reducible w ∧ R.Reducible r
  | .hole, _ => False

/-- The terms that reduce to a value that belongs to the type. -/
def Ty.Normalizes (T : Ty) (t : Term) : Prop := ∃ v, Steps t v ∧ T.Reducible v

namespace Ty.Reducible

variable {R T A : Ty} {v : Term} {l : String}

/-- What belongs to a type is a value. -/
lemma isValue (red : T.Reducible v) : v.isValue := by
  induction T generalizing v with
  | base b => exact red.elim
  | arrow A B _ _ =>
    obtain ⟨_, x, D, b, rfl, _⟩ := red
    rfl
  | empty =>
    cases red
    rfl
  | cell l A R ihA ihR =>
    obtain ⟨w, r, rfl, redW, redR⟩ := red
    exact Term.isValue_cell.2 ⟨ihA redW, ihR redR⟩
  | hole => exact red.elim

/-- What belongs to a type is closed. -/
lemma closed (red : T.Reducible v) : v.closed := by
  induction T generalizing v with
  | base b => exact red.elim
  | arrow A B _ _ => exact red.1
  | empty =>
    cases red
    rfl
  | cell l A R ihA ihR =>
    obtain ⟨w, r, rfl, redW, redR⟩ := red
    rw [Term.closed_iff]
    intro x mem
    rcases Term.mem_freeVars_cell.1 mem with mem | mem
    · exact Term.closed_iff.1 (ihA redW) x mem
    · exact Term.closed_iff.1 (ihR redR) x mem
  | hole => exact red.elim

/-- A record that belongs to its type has the fields that the type promises. -/
lemma lookup (red : R.Reducible v) (sel : R.lookup l = some A) :
    ∃ w, v.lookup l = some w ∧ A.Reducible w := by
  induction R generalizing v with
  | cell l' A' R _ ihR =>
    obtain ⟨w, r, rfl, redW, redR⟩ := red
    rw [Ty.lookup] at sel
    rw [Term.lookup]
    split
    · rename_i e
      rw [if_pos e] at sel
      cases sel
      exact ⟨w, rfl, redW⟩
    · rename_i ne
      rw [if_neg ne] at sel
      exact ihR redR sel
  | _ => cases sel

/-- What belongs to a type reduces to itself. -/
lemma normalizes (red : T.Reducible v) : T.Normalizes v := ⟨v, .refl, red⟩

end Ty.Reducible

/-! ## All typed terms normalize -/

/-- Values that belong to the declared types are put for the declared variables. -/
structure Closes (γ : String → Option Term) (Γ : Env) : Prop where
  reducible : ∀ {x U}, Γ.get? x = some U → ∃ v, γ x = some v ∧ U.Reducible v
  closed : Term.AllClosed γ

/-- A substitution closes a larger context if what is put in belongs to the new type. -/
lemma Closes.put {γ : String → Option Term} {Γ : Env} {x : String} {U : Ty} {v : Term}
    (cls : Closes γ Γ) (red : U.Reducible v) :
    Closes (Function.update γ x (some v)) (Γ.insert x U) where
  reducible := by
    intro y S get
    rw [OrderedMap.get?_insert] at get
    by_cases e : y = x
    · rw [if_pos e] at get
      cases get
      exact ⟨v, by rw [e, Function.update_self], red⟩
    · rw [if_neg e] at get
      rw [Function.update_of_ne e]
      exact cls.reducible get
  closed := cls.closed.put red.closed

/-- Nothing stays free. -/
lemma Typed.closed_close {Γ : Env} {t : Term} {T : Ty} {γ : String → Option Term}
    (ty : Typed Γ t T) (cls : Closes γ Γ) : (t.close γ).closed := by
  rw [Term.closed_iff]
  intro x mem
  obtain ⟨mem, none⟩ := Term.freeVars_close cls.closed mem
  obtain ⟨U, get⟩ := ty.declared mem
  obtain ⟨v, some, _⟩ := cls.reducible get
  cases none.symm.trans some

/-- A typed term normalizes once it is closed by values that belong to the declared types. -/
lemma Typed.normalizes {Γ : Env} {t : Term} {T : Ty} {γ : String → Option Term}
    (ty : Typed Γ t T) (cls : Closes γ Γ) : T.Normalizes (t.close γ) := by
  induction ty generalizing γ with
  | var get _ =>
    obtain ⟨v, eq, red⟩ := cls.reducible get
    rw [Term.close, eq]
    exact red.normalizes
  | @app Γ f a A B _ _ ihf iha =>
    obtain ⟨f', rdF, redF⟩ := ihf cls
    obtain ⟨a', rdA, redA⟩ := iha cls
    have vlF := redF.isValue
    obtain ⟨_, x, D, b, rfl, red⟩ := redF
    obtain ⟨v, rdV, redV⟩ := red a' redA
    refine ⟨v, ?_, redV⟩
    calc
      Steps (.app (f.close γ) (a.close γ)) (.app (.abs x D b) (a.close γ)) := rdF.appFn
      Steps _ (.app (.abs x D b) a') := rdA.appArg vlF
      Steps _ v := .head (.beta redA.isValue) rdV
  | @abs Γ x A b B wf tyB ih =>
    refine Ty.Reducible.normalizes ⟨(Typed.abs wf tyB).closed_close cls, x, A, _, rfl, ?_⟩
    intro a redA
    -- to apply the closed function is to close the body by the argument, too
    rw [Term.subst_close cls.closed redA.closed]
    exact ih (cls.put redA)
  | proj _ sel ih =>
    obtain ⟨r, rdR, redR⟩ := ih cls
    obtain ⟨v, selR, redV⟩ := redR.lookup sel
    exact ⟨v, .tail rdR.projRecord (.projField redR.isValue selR), redV⟩
  | empty => exact ⟨.empty, .refl, rfl⟩
  | cell _ _ _ _ ihv ihr =>
    obtain ⟨v, rdV, redV⟩ := ihv cls
    obtain ⟨r, rdR, redR⟩ := ihr cls
    exact ⟨_, .trans rdV.cellValue (rdR.cellRest redV.isValue), v, r, rfl, redV, redR⟩

namespace Term

/-- A term with a type in the empty context has a run that comes to a value of this type. Evaluation
comes to this run under every limit from some number of steps on, and without a limit. -/
theorem evaluate_normalizes {t : Term} {T : Ty} (ty : t.hasType ∅ = .ok (some T)) :
    ∃ (N : Nat) (r : Run),
      (∀ M ≥ N, t.evaluate (.atMost M) = .ok r) ∧
      (∀ horizon ≥ N, t.evaluate (.unlimited horizon) = .ok r) ∧
      r.term.isValue ∧ r.term.hasType ∅ = .ok (some T) := by
  have ty := hasType_eq_some_iff.1 ty
  have cls : Closes (fun _ => none) ∅ := ⟨nofun, nofun⟩
  obtain ⟨v, rd, red⟩ := ty.normalizes cls
  rw [close_none] at rd
  obtain ⟨ts, last, walk⟩ := walk_of_steps rd (step_of_isValue red.isValue)
  refine ⟨ts.length, ⟨t, ts⟩, ?_, ?_, ?_, ?_⟩
  · intro M le
    exact evaluate_of_walk (walk M le)
  · intro horizon le
    exact evaluate_of_walk (walk horizon le)
  · rw [Run.term, last]
    exact red.isValue
  · rw [Run.term, last]
    exact hasType_eq_some_iff.2 (ty.rd rd)

/-- The function that applies another one twice, which copies its argument. -/
theorem evaluate_normalizes_twice :
    let U : Ty := .arrow (.base "B") (.base "B")
    let twice : Term := .abs "f" (.arrow U U)
      (.abs "x" U (.app (.var "f") (.app (.var "f") (.var "x"))))
    let t : Term := .app (.app twice (.abs "g" U (.var "g"))) (.abs "y" (.base "B") (.var "y"))
    t.hasType ∅ = .ok (some U) ∧
      ∃ (N : Nat) (r : Run),
        (∀ M ≥ N, t.evaluate (.atMost M) = .ok r) ∧
        (∀ horizon ≥ N, t.evaluate (.unlimited horizon) = .ok r) ∧
        r.term.isValue ∧ r.term.hasType ∅ = .ok (some U) := by
  intro U twice t
  have ty : t.hasType ∅ = .ok (some U) := rfl
  exact ⟨ty, evaluate_normalizes ty⟩

end Term

end RecordLambda
