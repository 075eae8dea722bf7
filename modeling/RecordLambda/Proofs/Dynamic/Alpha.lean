import RecordLambda.Proofs.Dynamic.Concrete
import RecordLambda.Proofs.Dynamic.Nameless
import RecordLambda.Proofs.Static.Alpha
import Mathlib.Data.List.Forall2

/-!
# Evaluation of alpha-equivalent terms

Alpha-equivalent terms are evaluated alike. They reduce at the same places, `Alpha.step`, although
in one of them a substitution may rename a binder where in the other there is nothing to rename; so
their runs are as long as each other and go through alpha-equivalent terms.

The one case that takes work is the reduction of a function. Here alpha-equivalence is seen as
equality of nameless forms, `alpha_iff_nameless`, and the nameless form of the result is that of the
body with the argument put for the outermost binder: `Term.nameless_subst_eq_inst`. In this the name
of the parameter does not occur any more.
-/

namespace RecordLambda

/-! ## Nameless forms -/

namespace Nameless

/-- A name stands for a binder around it or for itself. -/
lemma ofName_cases (ρ : List String) (x : String) :
    (∃ i, ofName ρ x = bound i) ∨ ofName ρ x = free x := by
  rw [ofName]
  cases ρ.idxOf? x with
  | none => exact .inr rfl
  | some i => exact .inl ⟨i, rfl⟩

/-- A leaf from outside of a binder is none of its own. -/
lemma lift_ofName_ne (ρ : List String) (x : String) : (ofName ρ x).lift 0 ≠ bound 0 := by
  obtain ⟨i, eq⟩ | eq := ofName_cases ρ x
  · rw [eq]
    simp [lift]
  · rw [eq]
    simp [lift]

/-- Names that are equal below a binder are equal above it. -/
lemma lift_ofName_inj {ρ σ : List String} {x y : String}
    (eq : (ofName ρ x).lift 0 = (ofName σ y).lift 0) : ofName ρ x = ofName σ y := by
  obtain ⟨i, eqX⟩ | eqX := ofName_cases ρ x <;> obtain ⟨j, eqY⟩ | eqY := ofName_cases σ y <;>
    rw [eqX, eqY] at eq ⊢ <;> simp_all [lift]

/-- The form of the terms that have this nameless form. -/
def form : Nameless → Form
  | bound _ | free _ => .var
  | app .. => .app
  | abs .. => .abs
  | proj .. => .proj
  | empty => .empty
  | cell .. => .cell
  | hole => .term

/-- Puts `u` for the variable of the `k`-th binder around the term, counted from the inside. Below a
binder `u` makes room for it. -/
def inst : Nameless → Nat → Nameless → Nameless
  | bound i, k, u => if i = k then u else bound i
  | free x, _, _ => free x
  | app f a, k, u => app (f.inst k u) (a.inst k u)
  | abs A b, k, u => abs A (b.inst (k + 1) (u.lift 0))
  | proj r l, k, u => proj (r.inst k u) l
  | empty, _, _ => empty
  | cell l v r, k, u => cell l (v.inst k u) (r.inst k u)
  | hole, _, _ => hole

/-- Further outside there may be one more binder. -/
lemma idxOf?_append_singleton (ρ : List String) (x y : String) :
    (ρ ++ [x]).idxOf? y = (ρ.idxOf? y).or (if x = y then some ρ.length else none) := by
  rw [List.idxOf?, List.findIdx?_append, List.findIdx?_singleton]
  by_cases e : x = y
  · simp [e]
  · simp [e]

/-- Instead of being replaced as a free name, a leaf may be bound outside of all binders and
replaced as their variable. -/
lemma subst_ofName (ρ : List String) (x y : String) (u : Nameless) :
    (ofName ρ y).subst x u = (ofName (ρ ++ [x]) y).inst ρ.length u := by
  rw [ofName, ofName, idxOf?_append_singleton]
  cases eq : ρ.idxOf? y with
  | some i =>
    obtain ⟨lt, _⟩ := List.idxOf?_eq_some_iff.1 eq
    have ne : i ≠ ρ.length := Nat.ne_of_lt lt
    rw [Option.some_or]
    exact (if_neg ne).symm
  | none =>
    rw [Option.none_or]
    by_cases e : x = y
    · rw [if_pos e]
      simp [subst, inst, e]
    · rw [if_neg e]
      exact if_neg (Ne.symm e)

end Nameless

namespace Term

/-- To drop the names of the bound variables keeps the form. -/
lemma form_nameless (t : Term) (ρ : List String) : (t.nameless ρ).form = t.form := by
  cases t with
  | var x =>
    rw [nameless]
    obtain ⟨i, eq⟩ | eq := Nameless.ofName_cases ρ x <;> rw [eq] <;> rfl
  | _ => rfl

/-- Terms that are equal but for the names of their bound variables have the same form. -/
lemma form_eq_of_nameless_eq {t u : Term} {ρ σ : List String} (eq : t.nameless ρ = u.nameless σ) :
    t.form = u.form := by
  rw [← form_nameless t ρ, eq, form_nameless]

/-- To substitute for a free name is to put in for the outermost of one more binder around the term.
-/
lemma subst_nameless (t : Term) (ρ : List String) (x : String) (u : Nameless) :
    (t.nameless ρ).subst x u = (t.nameless (ρ ++ [x])).inst ρ.length u := by
  induction t generalizing ρ u with
  | var y => exact Nameless.subst_ofName ρ x y u
  | app f a ihf iha => rw [nameless, Nameless.subst, ihf, iha]; rfl
  | abs y A b ih => rw [nameless, Nameless.subst, ih]; rfl
  | proj r l ih => rw [nameless, Nameless.subst, ih]; rfl
  | empty => rfl
  | cell l v r ihv ihr => rw [nameless, Nameless.subst, ihv, ihr]; rfl
  | hole => rfl

/-- The nameless form of a substitution does not show the name that is replaced. -/
lemma nameless_subst_eq_inst (x : String) (v t : Term) :
    (t.subst x v).nameless [] = (t.nameless [x]).inst 0 (v.nameless []) := by
  rw [nameless_subst_nil, subst_nameless]
  rfl

end Term

open Nameless (ofName ofName_cons)

/-- Two names are related if they stand for the same binder or are the same free name. -/
lemma sameVar_iff {ρ : List (String × String)} {x y : String} :
    SameVar ρ x y ↔ ofName (ρ.map Prod.fst) x = ofName (ρ.map Prod.snd) y := by
  induction ρ with
  | nil =>
    constructor
    · rintro ⟨⟩
      rfl
    · rintro ⟨⟩
      exact .free
  | cons p ρ ih =>
    obtain ⟨x', y'⟩ := p
    rw [List.map_cons, List.map_cons, ofName_cons, ofName_cons]
    constructor
    · intro same
      cases same with
      | here => rw [if_pos rfl, if_pos rfl]
      | there neX neY same => rw [if_neg (Ne.symm neX), if_neg (Ne.symm neY), ih.1 same]
    · intro eq
      by_cases eX : x' = x <;> by_cases eY : y' = y
      · subst eX eY
        exact .here
      · rw [if_pos eX, if_neg eY] at eq
        exact absurd eq.symm (Nameless.lift_ofName_ne _ _)
      · rw [if_neg eX, if_pos eY] at eq
        exact absurd eq (Nameless.lift_ofName_ne _ _)
      · rw [if_neg eX, if_neg eY] at eq
        exact .there (Ne.symm eX) (Ne.symm eY) (ih.2 (Nameless.lift_ofName_inj eq))

/-- Alpha-equivalent terms are equal without names. -/
lemma Alpha.nameless_eq {ρ : List (String × String)} {t u : Term} (al : Alpha ρ t u) :
    t.nameless (ρ.map Prod.fst) = u.nameless (ρ.map Prod.snd) := by
  induction al with
  | var same => exact sameVar_iff.1 same
  | app _ _ ihf iha => rw [Term.nameless, ihf, iha]; rfl
  | abs _ ih => exact congrArg (Nameless.abs _) ih
  | proj _ ih => rw [Term.nameless, ih]; rfl
  | empty => rfl
  | cell _ _ ihv ihr => rw [Term.nameless, ihv, ihr]; rfl
  | hole => rfl

-- The nameless form shows the constructor, so that of `u` is the one of `t` in every case.
/-- Terms that are equal without names are alpha-equivalent. -/
lemma alpha_of_nameless_eq {ρ : List (String × String)} {t u : Term}
    (eq : t.nameless (ρ.map Prod.fst) = u.nameless (ρ.map Prod.snd)) : Alpha ρ t u := by
  induction t generalizing ρ u with
  | var x =>
    have form := Term.form_eq_of_nameless_eq eq
    cases u with
    | var y => exact .var (sameVar_iff.2 eq)
    | _ => cases form
  | app f a ihf iha =>
    have form := Term.form_eq_of_nameless_eq eq
    cases u with
    | app f' a' =>
      obtain ⟨eqF, eqA⟩ := Nameless.app.inj eq
      exact .app (ihf eqF) (iha eqA)
    | _ => cases form
  | abs x A b ih =>
    have form := Term.form_eq_of_nameless_eq eq
    cases u with
    | abs y B c =>
      obtain ⟨rfl, eqB⟩ := Nameless.abs.inj eq
      exact .abs (ih eqB)
    | _ => cases form
  | proj r l ih =>
    have form := Term.form_eq_of_nameless_eq eq
    cases u with
    | proj r' l' =>
      obtain ⟨eqR, rfl⟩ := Nameless.proj.inj eq
      exact .proj (ih eqR)
    | _ => cases form
  | empty =>
    have form := Term.form_eq_of_nameless_eq eq
    cases u with
    | empty => exact .empty
    | _ => cases form
  | cell l v r ihv ihr =>
    have form := Term.form_eq_of_nameless_eq eq
    cases u with
    | cell l' v' r' =>
      obtain ⟨rfl, eqV, eqR⟩ := Nameless.cell.inj eq
      exact .cell (ihv eqV) (ihr eqR)
    | _ => cases form
  | hole =>
    have form := Term.form_eq_of_nameless_eq eq
    cases u with
    | hole => exact .hole
    | _ => cases form

/-- Alpha-equivalent terms are those that have the same nameless form. -/
lemma alpha_iff_nameless {ρ : List (String × String)} {t u : Term} :
    Alpha ρ t u ↔ t.nameless (ρ.map Prod.fst) = u.nameless (ρ.map Prod.snd) :=
  ⟨Alpha.nameless_eq, alpha_of_nameless_eq⟩

/-! ## Steps -/

/-- Alpha-equivalence is symmetric. -/
lemma AlphaEq.symm {t u : Term} (al : AlphaEq t u) : AlphaEq u t :=
  alpha_iff_nameless.2 (alpha_iff_nameless.1 al).symm

/-- Putting alpha-equivalent terms for paired variables. -/
lemma Alpha.subst {x y : String} {b c v w : Term} (alB : Alpha [(x, y)] b c) (alV : AlphaEq v w) :
    AlphaEq (b.subst x v) (c.subst y w) := by
  have eqB : b.nameless [x] = c.nameless [y] := alpha_iff_nameless.1 alB
  have eqV : v.nameless [] = w.nameless [] := alpha_iff_nameless.1 alV
  apply alpha_iff_nameless.2
  calc
    (b.subst x v).nameless [] = (b.nameless [x]).inst 0 (v.nameless []) :=
      Term.nameless_subst_eq_inst x v b
    _ = (c.nameless [y]).inst 0 (w.nameless []) := by rw [eqB, eqV]
    _ = (c.subst y w).nameless [] := (Term.nameless_subst_eq_inst y w c).symm

namespace Alpha

variable {ρ : List (String × String)} {t u t' v r s : Term} {l : String}

/-- Alpha-equivalent terms are both values or both not. -/
lemma isValue_eq (al : Alpha ρ t u) : t.isValue = u.isValue := by
  induction al with
  | cell _ _ ihv ihr => rw [Term.isValue, Term.isValue, ihv, ihr]
  | _ => rfl

/-- Alpha-equivalent records have alpha-equivalent fields under a label. -/
lemma lookup (al : Alpha ρ r s) (sel : r.lookup l = some v) :
    ∃ w, s.lookup l = some w ∧ Alpha ρ v w := by
  induction al with
  | cell alV _ _ ihr =>
    rw [Term.lookup] at sel ⊢
    split
    · rename_i e
      rw [if_pos e] at sel
      cases sel
      exact ⟨_, rfl, alV⟩
    · rename_i ne
      rw [if_neg ne] at sel
      exact ihr sel
  | _ => cases sel

/-- A step is made on either side. -/
lemma step (al : AlphaEq t u) (st : Step t t') : ∃ u', Step u u' ∧ AlphaEq t' u' := by
  induction st generalizing u with
  | appFn _ ih =>
    cases al with
    | app alF alA =>
      obtain ⟨f', st, al'⟩ := ih alF
      exact ⟨_, .appFn st, .app al' alA⟩
  | appArg vl _ ih =>
    cases al with
    | app alF alA =>
      obtain ⟨a', st, al'⟩ := ih alA
      exact ⟨_, .appArg (alF.isValue_eq ▸ vl) st, .app alF al'⟩
  | beta vl =>
    cases al with
    | app alF alA =>
      cases alF with
      | abs alB => exact ⟨_, .beta (alA.isValue_eq ▸ vl), alB.subst alA⟩
  | projRecord _ ih =>
    cases al with
    | proj alR =>
      obtain ⟨r', st, al'⟩ := ih alR
      exact ⟨_, .projRecord st, .proj al'⟩
  | projField vl sel =>
    cases al with
    | proj alR =>
      obtain ⟨w, sel, al'⟩ := alR.lookup sel
      exact ⟨w, .projField (alR.isValue_eq ▸ vl) sel, al'⟩
  | cellValue _ ih =>
    cases al with
    | cell alV alR =>
      obtain ⟨v', st, al'⟩ := ih alV
      exact ⟨_, .cellValue st, .cell al' alR⟩
  | cellRest vl _ ih =>
    cases al with
    | cell alV alR =>
      obtain ⟨r', st, al'⟩ := ih alR
      exact ⟨_, .cellRest (alV.isValue_eq ▸ vl) st, .cell alV al'⟩

end Alpha

namespace AlphaEq

variable {t u : Term}

/-- There is a step on both sides or on neither. -/
lemma step_cases (al : AlphaEq t u) (con : t.concrete) :
    (t.step = .ok none ∧ u.step = .ok none) ∨
      ∃ t' u', t.step = .ok (some t') ∧ u.step = .ok (some u') ∧ AlphaEq t' u' := by
  obtain ⟨s, eq⟩ := Term.exists_step_eq_ok con
  obtain ⟨s', eq'⟩ := Term.exists_step_eq_ok (al.concrete_eq ▸ con)
  cases s with
  | some t' =>
    obtain ⟨u', st, al'⟩ := Alpha.step al (Term.step_sound eq)
    exact .inr ⟨t', u', eq, Term.step_complete st, al'⟩
  | none =>
    cases s' with
    | none => exact .inl ⟨eq, eq'⟩
    | some u' =>
      obtain ⟨t', st, _⟩ := Alpha.step al.symm (Term.step_sound eq')
      cases eq.symm.trans (Term.step_complete st)

end AlphaEq

/-! ## Runs -/

/-- Evaluating `t` and `u` comes to the runs `r` and `s` in the same way: both came to an end, or
both were broken off at the limit. -/
inductive EndAlike (limit : Limit) (t u : Term) (r s : Run) : Prop where
  | done :
    t.evaluate limit = .ok r →
    u.evaluate limit = .ok s →
    EndAlike limit t u r s
  | outOfFuel {n} :
    limit = .atMost n →
    t.evaluate limit = .error (.outOfFuel n r) →
    u.evaluate limit = .error (.outOfFuel n s) →
    EndAlike limit t u r s
  | unfinished {n} :
    limit = .unlimited n →
    t.evaluate limit = .error (.unfinished r) →
    u.evaluate limit = .error (.unfinished s) →
    EndAlike limit t u r s

namespace AlphaEq

variable {t u : Term}

/-- The walks go on for the same number of steps, through alpha-equivalent terms. -/
lemma walk (al : AlphaEq t u) (con : t.concrete) (n : Nat) :
    ∃ ts us done, t.walk n = .ok (ts, done) ∧ u.walk n = .ok (us, done) ∧
      List.Forall₂ AlphaEq ts us := by
  induction n generalizing t u with
  | zero =>
    obtain ⟨stop, stop'⟩ | ⟨t', u', eq, eq', _⟩ := al.step_cases con
    · exact ⟨[], [], true, Term.walk_of_step_none stop 0, Term.walk_of_step_none stop' 0, .nil⟩
    · exact ⟨[], [], false, Term.walk_zero_of_step (Term.step_sound eq),
        Term.walk_zero_of_step (Term.step_sound eq'), .nil⟩
  | succ n ih =>
    obtain ⟨stop, stop'⟩ | ⟨t', u', eq, eq', al'⟩ := al.step_cases con
    · exact ⟨[], [], true, Term.walk_of_step_none stop _, Term.walk_of_step_none stop' _, .nil⟩
    · have st := Term.step_sound eq
      obtain ⟨ts, us, done, more, more', all⟩ := ih al' (st.concrete con)
      exact ⟨t' :: ts, u' :: us, done, Term.walk_succ_of_step st more,
        Term.walk_succ_of_step (Term.step_sound eq') more', .cons al' all⟩

/-- Evaluation hands out runs through alpha-equivalent terms, and does so in the same way. -/
lemma evaluate (al : AlphaEq t u) (con : t.concrete) (limit : Limit) :
    ∃ r s : Run, List.Forall₂ AlphaEq r.trace s.trace ∧ EndAlike limit t u r s := by
  obtain ⟨ts, us, done, eq, eq', all⟩ := al.walk con limit.reach
  refine ⟨⟨t, ts⟩, ⟨u, us⟩, .cons al all, ?_⟩
  cases done with
  | true => exact .done (Term.evaluate_of_walk eq) (Term.evaluate_of_walk eq')
  | false =>
    cases limit with
    | atMost n => exact .outOfFuel rfl (by rw [Term.evaluate, eq]) (by rw [Term.evaluate, eq'])
    | unlimited n => exact .unfinished rfl (by rw [Term.evaluate, eq]) (by rw [Term.evaluate, eq'])

end AlphaEq

namespace Term

/-- The names of binders do not matter. Alpha-equivalent terms have the same type in every context,
are values or not alike, and make alpha-equivalent steps or none. Under every limit their runs have
the same number of steps and go through alpha-equivalent terms, and both of them come to an end or
both are broken off. -/
theorem alphaEq_invariant {t u : Term} (al : AlphaEq t u) (con : t.concrete) :
    (∀ Γ, t.hasType Γ = u.hasType Γ) ∧
      t.isValue = u.isValue ∧
      ((t.step = .ok none ∧ u.step = .ok none) ∨
        ∃ t' u', t.step = .ok (some t') ∧ u.step = .ok (some u') ∧ AlphaEq t' u') ∧
      ∀ limit, ∃ r s : Run, r.steps = s.steps ∧ List.Forall₂ AlphaEq r.trace s.trace ∧
        EndAlike limit t u r s := by
  refine ⟨fun Γ => Alpha.hasType_eq al (.nil Γ), Alpha.isValue_eq al, al.step_cases con, ?_⟩
  intro limit
  obtain ⟨r, s, all, ends⟩ := al.evaluate con limit
  have len : r.steps + 1 = s.steps + 1 := all.length_eq
  exact ⟨r, s, Nat.succ.inj len, all, ends⟩

/-- The argument has `y` free. Below a binder of `y` the step has to rename, below one of `z` not.
-/
theorem alphaEq_invariant_renaming :
    let a : Term := .abs "w" (.base "A") (.var "y")
    let f (y : String) : Term :=
      .abs "x" (.arrow (.base "A") (.base "A")) (.abs y (.base "B") (.var "x"))
    let t : Term := .app (f "y") a
    let u : Term := .app (f "z") a
    AlphaEq t u ∧ t.concrete ∧
      t.step = .ok (some (.abs "y'" (.base "B") a)) ∧ u.step = .ok (some (.abs "z" (.base "B") a)) ∧
      AlphaEq (.abs "y'" (.base "B") a) (.abs "z" (.base "B") a) := by
  intro a f t u
  have al : AlphaEq t u := alpha_iff_nameless.2 rfl
  have con : t.concrete := rfl
  have st : t.step = .ok (some (.abs "y'" (.base "B") a)) := by cbv
  have st' : u.step = .ok (some (.abs "z" (.base "B") a)) := by cbv
  obtain ⟨stop, _⟩ | ⟨t', u', eq, eq', al'⟩ := (alphaEq_invariant al con).2.2.1
  · cases st.symm.trans stop
  · cases st.symm.trans eq
    cases st'.symm.trans eq'
    exact ⟨al, con, st, st', al'⟩

end Term

end RecordLambda
