import RecordLambda.Proofs.Dynamic.Concrete
import RecordLambda.Proofs.Dynamic.PlainSubst

/-!
# Evaluation and names

Evaluation invents no names. A step has no free variable that was not free before,
`Step.freeVars_subset`, so a closed term reduces to closed terms only. Since no binder is passed on
the way to the place of evaluation, the argument of a function that is applied there is closed as
well; then it is put in by the plain rule, and every binder keeps its name. So all binders of a run
are named as in the program that it started from: `Steps.binders_subset`.
-/

namespace RecordLambda

namespace Term

variable {w x : String} {A : Ty} {b a : Term}

/-! ## Free variables -/

/-- Not to have a certain free variable is hereditary. -/
lemma hereditary_not_mem_freeVars (w : String) : Hereditary fun t => w ∉ t.freeVars where
  app := (not_congr mem_freeVars_app).trans not_or
  proj := not_congr mem_freeVars_proj
  cell := (not_congr mem_freeVars_cell).trans not_or

/-- To be closed is hereditary. -/
lemma hereditary_closed : Hereditary fun t => t.closed := by
  simp only [closed_iff]
  exact .all hereditary_not_mem_freeVars

/-- What is not free in a function and its argument is not free in what the application comes
to. -/
lemma not_mem_freeVars_beta (outF : w ∉ (abs x A b).freeVars) (outA : w ∉ a.freeVars) :
    w ∉ (b.subst x a).freeVars := by
  intro mem
  obtain ⟨memB, ne⟩ | ⟨_, memA⟩ := mem_freeVars_subst.1 mem
  · exact outF (mem_freeVars_abs.2 ⟨memB, ne⟩)
  · exact outA memA

/-- A closed function applied to a closed argument gives a closed term. -/
lemma closed_beta (clF : (abs x A b).closed) (clA : a.closed) : (b.subst x a).closed := by
  rw [closed_iff] at clF clA ⊢
  intro w
  exact not_mem_freeVars_beta (clF w) (clA w)

/-! ## Binders -/

/-- Not to have a certain binder is hereditary. -/
lemma hereditary_not_mem_binders (w : String) : Hereditary fun t => w ∉ t.binders where
  app := (not_congr List.mem_append).trans not_or
  proj := Iff.rfl
  cell := (not_congr List.mem_append).trans not_or

/-- If the argument is closed then no binder is renamed, so there is none that was not there. -/
lemma not_mem_binders_beta (clA : a.closed) (outF : w ∉ (abs x A b).binders)
    (outA : w ∉ a.binders) : w ∉ (b.subst x a).binders := by
  rw [subst_eq_plainSubst_of_closed clA]
  intro mem
  obtain memB | memA := mem_binders_plainSubst mem
  · exact outF (List.mem_cons_of_mem x memB)
  · exact outA memA

end Term

open Term

variable {t t' : Term}

/-- A step frees no variable. -/
lemma Step.freeVars_subset (st : Step t t') : t'.freeVars ⊆ t.freeVars := by
  intro w mem
  by_contra out
  exact (hereditary_not_mem_freeVars w).step not_mem_freeVars_beta st out mem

/-- What a closed term reduces to is closed. -/
lemma Steps.closed (rd : Steps t t') (cl : t.closed) : t'.closed :=
  hereditary_closed.steps closed_beta rd cl

/-- The reducts of a closed term have no binders but its own. -/
lemma Steps.binders_subset (rd : Steps t t') (cl : t.closed) : t'.binders ⊆ t.binders := by
  intro w mem
  by_contra out
  -- a binder is renamed only to make room for a free variable, so both have to be kept together
  have her := hereditary_closed.and (hereditary_not_mem_binders w)
  have both : t'.closed ∧ w ∉ t'.binders := by
    refine her.steps ?_ rd ⟨cl, out⟩
    rintro x A b a ⟨clF, outF⟩ ⟨clA, outA⟩
    exact ⟨closed_beta clF clA, not_mem_binders_beta clA outF outA⟩
  exact both.2 mem

/-- The argument of a function that is applied at a place of evaluation is below no binder of the
term. -/
lemma EvalContext.closed_arg {K : EvalContext} {x : String} {A : Ty} {b a : Term}
    (cl : (K.fill (.app (.abs x A b) a)).closed) : a.closed := by
  obtain ⟨part, _⟩ := hereditary_closed.fill cl
  exact (hereditary_closed.app.1 part).2

namespace Term

/-- Evaluation invents no names. A step leaves no variable free that was not so before. Under every
limit a closed term has a run, and all its terms are closed and have no binder that is named
otherwise than one of the first term. A step of these terms is a contraction at a place of
evaluation; and if a function is applied there, its argument is closed and is put in without
renaming. -/
theorem evaluate_invents_no_names {t : Term} (con : t.concrete) :
    (∀ t', t.step = .ok (some t') → t'.freeVars ⊆ t.freeVars) ∧
    (t.closed → ∀ limit, (∃ r, HandsOut limit t r) ∧
      ∀ r, HandsOut limit t r → ∀ u ∈ r.trace,
        u.closed ∧ u.binders ⊆ t.binders ∧
        (∀ u', u.step = .ok (some u') ↔
          ∃ (K : EvalContext) (p q : Term), Contracts p q ∧ u = K.fill p ∧ u' = K.fill q) ∧
        ∀ (K : EvalContext) (x : String) (A : Ty) (b a : Term), u = K.fill (.app (.abs x A b) a) →
          a.closed ∧ b.subst x a = b.plainSubst x a) := by
  constructor
  · intro t' eq
    exact (step_sound eq).freeVars_subset
  · intro cl limit
    refine ⟨exists_handsOut con limit, ?_⟩
    intro r out u mem
    have rd := steps_of_handsOut out mem
    have clU := rd.closed cl
    refine ⟨clU, rd.binders_subset cl, ?_, ?_⟩
    · intro u'
      rw [step_eq_some_iff, step_iff_contracts]
    · rintro K x A b a rfl
      have clA := K.closed_arg clU
      exact ⟨clA, subst_eq_plainSubst_of_closed clA⟩

/-- The argument binds the same name as the function that it is put in, and the run is broken off
before its end. -/
theorem evaluate_invents_no_names_partial :
    let A : Ty := .base "A"
    let i : Term := .abs "y" A (.var "y")
    let b : Term := .abs "y" A (.app (.var "f") (.var "y"))
    let t : Term := .app (.app (.abs "f" (.arrow A A) b) i) .empty
    let r : Run := ⟨t, [.app (.abs "y" A (.app i (.var "y"))) .empty, .app i .empty]⟩
    t.concrete ∧ t.closed ∧ t.evaluate (.atMost 2) = .error (.outOfFuel 2 r) ∧
      (∀ u ∈ r.trace, u.closed ∧ u.binders ⊆ t.binders) ∧
      i.closed ∧ b.subst "f" i = b.plainSubst "f" i := by
  intro A i b t r
  have con : t.concrete := rfl
  have cl : t.closed := by decide
  have ev : t.evaluate (.atMost 2) = .error (.outOfFuel 2 r) := by cbv
  have all := ((evaluate_invents_no_names con).2 cl _).2 r (.outOfFuel ev)
  refine ⟨con, cl, ev, ?_, ?_⟩
  · intro u mem
    obtain ⟨clU, sub, _⟩ := all u mem
    exact ⟨clU, sub⟩
  · obtain ⟨_, _, _, puts⟩ := all t (List.mem_cons_self ..)
    exact puts (.appFn .here .empty) "f" (.arrow A A) b i rfl

end Term

end RecordLambda
