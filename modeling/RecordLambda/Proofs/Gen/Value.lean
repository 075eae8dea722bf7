import RecordLambda.Proofs.Dynamic.BigStep
import RecordLambda.Proofs.Dynamic.Progress
import RecordLambda.Proofs.Dynamic.SR
import RecordLambda.Proofs.Dynamic.Scope
import RecordLambda.Proofs.Gen.Typed
import Mathlib.Tactic.Lemma

/-!
# Random values

A search that starts without variables and without depth finds closed values only, whether or not
the type is well formed.

This takes two inductions on the type. The first is about names: a variable is found only where it
is declared, so whatever is found in a context has no free variable that the context does not
declare. The second is about values. Below a binder there are variables to be found, but there it
does not matter, since an abstraction is a value whatever its body is; and as long as no binder is
passed the context is empty, so that only introductions are tried. The rest of a cell is introduced
by itself, and an abstraction at the end of a chain is a value as well.
-/

namespace RecordLambda

open Gen

variable {Γ : Env} {A B R T : Ty} {l x : String} {voc : Vocabulary}

/-! ## Names -/

/-- If there is a term, its free variables are declared. -/
def Scoped (Γ : Env) (o : Option Term) : Prop :=
  ∀ t, o = some t → ∀ x ∈ t.freeVars, Γ.contains x

lemma scoped_none : Scoped Γ none := nofun

/-- What an abstraction binds need not be declared. -/
lemma scoped_abs {b : Option Term} (sc : Scoped (Γ.insert x A) b) :
    Scoped Γ (b.map (.abs x A ·)) := by
  intro t eq y mem
  obtain ⟨u, rfl, rfl⟩ := Option.map_eq_some_iff.1 eq
  obtain ⟨mem, ne⟩ := Term.mem_freeVars_abs.1 mem
  have declared := sc u rfl y mem
  rwa [OrderedMap.contains, OrderedMap.get?_insert, if_neg ne] at declared

lemma scoped_cell {v r : Option Term} (scV : Scoped Γ v) (scR : Scoped Γ r) :
    Scoped Γ (cellOf l v r) := by
  intro t eq y mem
  obtain ⟨v, r, rfl, rfl, rfl⟩ := exists_of_cellOf eq
  exact (Term.mem_freeVars_cell.1 mem).elim (scV v rfl y) (scR r rfl y)

/-- The variables that are found are declared. -/
lemma scoped_varRule : (varRule T Γ).Ensures (Scoped Γ) := by
  refine ensures_varRule_declared.mono fun o found t eq y mem => ?_
  obtain ⟨x, rfl, get⟩ := found t eq
  cases Term.mem_freeVars_var.1 mem
  exact Option.isSome_iff_exists.2 ⟨T, get⟩

/-- Trying rules finds only what is declared, if introductions do. -/
lemma scoped_tryRules {intro : Gen (Option Term)} (int : intro.Ensures (Scoped Γ)) :
    (tryRules T Γ intro []).Ensures (Scoped Γ) :=
  ensures_tryRules_of scoped_none int (fun _ => scoped_varRule) (List.forall_mem_nil _)

/-- What is introduced without depth has only variables that are declared. -/
lemma Vocabulary.scoped_groundIntro : (voc.groundIntro T Γ).Ensures (Scoped Γ) := by
  induction T generalizing Γ with
  | arrow A B _ ihB =>
    exact .bind_any fun x => (scoped_tryRules ihB).bind fun b sc => .pure (scoped_abs sc)
  | empty =>
    refine .pure fun t eq x mem => ?_
    cases eq
    cases mem
  | cell l A R ihA ihR =>
    refine (scoped_tryRules ihA).bind fun v scV => ihR.bind fun r scR => .pure ?_
    exact scoped_cell scV scR
  | _ => exact .pure scoped_none

/-! ## Values -/

/-- If there is a term, it is a value. -/
def Valued (o : Option Term) : Prop := ∀ t, o = some t → t.isValue

lemma valued_none : Valued none := nofun

/-- An abstraction is a value whatever its body is. -/
lemma valued_abs {b : Option Term} : Valued (b.map (.abs x A ·)) := by
  intro t eq
  obtain ⟨u, rfl, rfl⟩ := Option.map_eq_some_iff.1 eq
  rfl

lemma valued_cell {v r : Option Term} (vlV : Valued v) (vlR : Valued r) :
    Valued (cellOf l v r) := by
  intro t eq
  obtain ⟨v, r, rfl, rfl, rfl⟩ := exists_of_cellOf eq
  exact Term.isValue_cell.2 ⟨vlV v rfl, vlR r rfl⟩

/-- Without variables only the introduction is left. -/
lemma valued_tryRules {intro : Gen (Option Term)} (int : intro.Ensures Valued) :
    (tryRules T ∅ intro []).Ensures Valued := by
  refine ensures_tryRules_of valued_none int ?_ (List.forall_mem_nil _)
  intro some
  exact absurd rfl some

/-- What is introduced without depth and variables is a value. -/
lemma Vocabulary.valued_groundIntro : (voc.groundIntro T ∅).Ensures Valued := by
  induction T with
  | arrow A B _ _ => exact .bind_any fun x => .bind_any fun b => .pure valued_abs
  | empty =>
    refine .pure fun t eq => ?_
    cases eq
    rfl
  | cell l A R ihA ihR =>
    refine (valued_tryRules ihA).bind fun v vlV => ihR.bind fun r vlR => .pure ?_
    exact valued_cell vlV vlR
  | _ => exact .pure valued_none

namespace Vocabulary

/-- What a search for a value finds is a closed value. -/
lemma ensures_valueOf :
    (voc.valueOf T).Ensures fun o => ∀ v, o = some v → v.isValue ∧ v.closed := by
  intro s o s' run v eq
  have vl := valued_tryRules valued_groundIntro s o s' run v eq
  have sc := scoped_tryRules scoped_groundIntro s o s' run v eq
  refine ⟨vl, Term.closed_iff.2 ?_⟩
  intro x mem
  cases sc x mem

/-- Whatever is drawn, a term that is found as a value of a type is a closed value. If the type is
well formed, the term has just this type without variables, and every label that selects a field of
the type selects a closed value of the type of the field. -/
theorem valueOf_yields_value (voc : Vocabulary) (T : Ty) {s s' : Source} {v : Term}
    (run : (voc.valueOf T).runOn s = (.ok (some v), s')) :
    v.isValue ∧ v.freeVars = [] ∧
      (T.wellFormed = .ok true →
        v.hasType ∅ = .ok (some T) ∧
        ∀ l A, T.lookup l = some A →
          ∃ w, v.lookup l = some w ∧ w.isValue ∧ w.freeVars = [] ∧ w.hasType ∅ = .ok (some A)) := by
  obtain ⟨vl, cl⟩ := ensures_valueOf s _ s' run v rfl
  refine ⟨vl, List.isEmpty_iff.1 cl, ?_⟩
  intro wf
  have ty : Typed ∅ v T := (sound_level 0).term wf s _ s' run v rfl
  simp only [Term.hasType_eq_some_iff]
  refine ⟨ty, ?_⟩
  intro l A sel
  obtain ⟨w, selV⟩ := ty.exists_lookup vl sel
  have clW : w.closed := Term.hereditary_closed.lookup cl selV
  exact ⟨w, selV, Term.isValue_lookup vl selV, List.isEmpty_iff.1 clW, ty.lookup selV sel⟩

/-- A record with a repeated label, in which the body of an abstraction uses the outer one of two
variables; and an ill-formed type that ends in an arrow. -/
theorem valueOf_yields_value_repeated :
    let A : Ty := .base "A"
    let B : Ty := .base "B"
    let K : Ty := .arrow A (.arrow B A)
    let T : Ty := .cell "l" K (.cell "l" .empty .empty)
    let k : Term := .abs "a" A (.abs "b" B (.var "a"))
    let v : Term := .cell "l" k (.cell "l" .empty .empty)
    let U : Ty := .cell "l" .empty (.arrow A A)
    let u : Term := .cell "l" .empty (.abs "c" A (.var "c"))
    (small.valueOf T).runOn (.ofSeed [3, 1, 0, 5] 0) = (.ok (some v), ⟨[], 0, 4⟩) ∧
      T.wellFormed = .ok true ∧ T.lookup "l" = some K ∧
      v.isValue ∧ v.freeVars = [] ∧ v.hasType ∅ = .ok (some T) ∧
      (∃ w, v.lookup "l" = some w ∧ w.isValue ∧ w.freeVars = [] ∧ w.hasType ∅ = .ok (some K)) ∧
      (small.valueOf U).runOn (.ofSeed [2, 1, 7] 0) = (.ok (some u), ⟨[], 0, 3⟩) ∧
      U.wellFormed = .ok false ∧ u.isValue ∧ u.freeVars = [] := by
  intro A B K T k v U u
  have run : (small.valueOf T).runOn (.ofSeed [3, 1, 0, 5] 0) = (.ok (some v), ⟨[], 0, 4⟩) := by
    decide +kernel
  have run' : (small.valueOf U).runOn (.ofSeed [2, 1, 7] 0) = (.ok (some u), ⟨[], 0, 3⟩) := by
    decide +kernel
  have wf : T.wellFormed = .ok true := rfl
  have sel : T.lookup "l" = some K := rfl
  obtain ⟨vl, cl, typed⟩ := valueOf_yields_value small T run
  obtain ⟨ty, field⟩ := typed wf
  obtain ⟨vlU, clU, -⟩ := valueOf_yields_value small U run'
  exact ⟨run, wf, sel, vl, cl, ty, field "l" K sel, run', rfl, vlU, clU⟩

end Vocabulary

end RecordLambda
