import RecordLambda.Gen.Term
import RecordLambda.Proofs.Gen.Ty
import RecordLambda.Proofs.OrderedMap
import RecordLambda.Proofs.Static.Truth
import RecordLambda.Proofs.Static.Validity
import Mathlib.Tactic.Lemma

/-!
# Random terms have their type

A term that is found for a well-formed type has that type, in every context and whatever is drawn.
The rules of one depth are sound if those of the depth below are, `Level.Sound`; so this goes by
induction on the depth, and at depth zero by induction on the type. What is introduced for a record
type is moreover a record, which the rule of cells asks of the rest.

The types that the rules make up on the way are well formed: they are random well-formed types, or
chains of such types that end in the empty record.

Since what is found is typed, nothing is ever found for a ground type in the empty context.
-/

namespace RecordLambda

/-! ## Types -/

namespace Ty

/-- A chain of well-formed fields that ends in the empty record is a well-formed record type. -/
lemma wellFormed_ofFields {fs : List (String × Ty)} (all : ∀ f ∈ fs, f.2.wellFormed = .ok true) :
    (ofFields fs .empty).wellFormed = .ok true ∧ (ofFields fs .empty).isRecord := by
  induction fs with
  | nil => exact ⟨rfl, rfl⟩
  | cons f fs ih =>
    obtain ⟨wf, rest⟩ := List.forall_mem_cons.1 all
    obtain ⟨wfR, rec⟩ := ih rest
    exact ⟨wellFormed_cell.2 ⟨wf, rec, wfR⟩, rfl⟩

/-- Fields with other labels do not hide a field behind them. -/
lemma lookup_ofFields {before : List (String × Ty)} {l : String} (other : ∀ f ∈ before, f.1 ≠ l)
    (T : Ty) (behind : List (String × Ty)) (rest : Ty) :
    (ofFields (before ++ (l, T) :: behind) rest).lookup l = some T := by
  induction before with
  | nil => exact if_pos rfl
  | cons f before ih =>
    obtain ⟨ne, other⟩ := List.forall_mem_cons.1 other
    exact (if_neg ne).trans (ih other)

end Ty

namespace Vocabulary

open Gen

variable {voc : Vocabulary}

/-- A random well-formed type is well formed. -/
lemma ensures_wfTy (d : Nat) : (voc.wfTy d).Ensures (·.wellFormed = .ok true) := by
  refine ensures_wfTy_of (p := fun _ T => T.wellFormed = .ok true) ?_ rfl ?_ ?_ d
  · intro d b
    rfl
  · intro d A B wfA wfB
    exact Ty.wellFormed_arrow.2 ⟨wfA, wfB⟩
  · intro d fs _ all
    exact (Ty.wellFormed_ofFields all).1

/-- The fields before the label do not carry it, and all fields have well-formed types. -/
lemma ensures_fieldsAround :
    voc.fieldsAround.Ensures fun (l, before, behind) =>
      (∀ f ∈ before, f.1 ≠ l) ∧ ∀ f ∈ before ++ behind, f.2.wellFormed = .ok true := by
  refine (ensures_fieldsAround_of (ensures_wfTy 0)).mono ?_
  intro (l, before, behind) ⟨few, few'⟩
  refine ⟨fun f mem => (few.2 f mem).1, List.forall_mem_append.2 ⟨?_, few'.2⟩⟩
  intro f mem
  exact (few.2 f mem).2

end Vocabulary

/-! ## Terms -/

/-- If there is a term, it has the type. -/
def Found (Γ : Env) (T : Ty) (o : Option Term) : Prop := ∀ t, o = some t → Typed Γ t T

/-- If there is a term, it has the type, and it is a record if the type is a record type. -/
def Introduced (Γ : Env) (T : Ty) (o : Option Term) : Prop :=
  ∀ t, o = some t → Typed Γ t T ∧ (T.isRecord → t.isRecord)

/-- The rules of a level find terms of the types that they are asked for. -/
structure Level.Sound (lev : Level) : Prop where
  intro : ∀ {T Γ}, T.wellFormed = .ok true → (lev.intro T Γ).Ensures (Introduced Γ T)
  term : ∀ {T Γ}, T.wellFormed = .ok true → (lev.term T Γ).Ensures (Found Γ T)

open Gen

variable {Γ : Env} {A B R T : Ty} {l x : String} {voc : Vocabulary} {below : Level}

lemma found_none : Found Γ T none := nofun

/-- What is introduced is found. -/
lemma Introduced.found {o : Option Term} (int : Introduced Γ T o) : Found Γ T o :=
  fun t eq => (int t eq).1

/-- A variable that is found is declared with the type. -/
lemma ensures_varRule_declared :
    (varRule T Γ).Ensures fun o => ∀ t, o = some t → ∃ x, t = .var x ∧ Γ.get? x = some T := by
  unfold varRule
  split
  · apply Gen.Ensures.pure
    intro t eq
    cases eq
  · refine (ensures_pick _).bind fun x mem => .pure ?_
    intro t eq
    cases eq
    obtain ⟨⟨_, U⟩, declared, rfl⟩ := List.mem_map.1 mem
    obtain ⟨declared, eq⟩ := List.mem_filter.1 declared
    cases eq_of_beq eq
    exact ⟨_, rfl, OrderedMap.get?_of_mem declared⟩

/-- The variables that are found have the type. -/
lemma ensures_varRule (wf : T.wellFormed = .ok true) : (varRule T Γ).Ensures (Found Γ T) := by
  refine ensures_varRule_declared.mono fun o found t eq => ?_
  obtain ⟨x, rfl, get⟩ := found t eq
  exact .var get wf

/-- What each rule ensures is ensured by trying them all. The variables are tried only if there are
some. -/
lemma ensures_tryRules_of {p : Option Term → Prop} {intro : Gen (Option Term)}
    {more : List (Gen (Option Term))} (none : p none) (int : intro.Ensures p)
    (var : Env.varsOf Γ T ≠ [] → (varRule T Γ).Ensures p) (each : ∀ g ∈ more, g.Ensures p) :
    (tryRules T Γ intro more).Ensures p := by
  refine (ensures_shuffle _).bind fun rules perm => ensures_firstSome none fun g mem => ?_
  rw [perm.mem_iff, List.mem_cons, List.mem_append] at mem
  rcases mem with rfl | mem | mem
  · exact int
  · split at mem
    · cases mem
    · rename_i some
      cases List.mem_singleton.1 mem
      apply var
      intro eq
      exact some (List.isEmpty_iff.2 eq)
  · exact each g mem

/-- What is found by trying rules has the type if what each finds has it. -/
lemma ensures_tryRules {intro : Gen (Option Term)} {more : List (Gen (Option Term))}
    (wf : T.wellFormed = .ok true) (int : intro.Ensures (Introduced Γ T))
    (each : ∀ g ∈ more, g.Ensures (Found Γ T)) : (tryRules T Γ intro more).Ensures (Found Γ T) :=
  ensures_tryRules_of found_none (int.mono fun _ => Introduced.found) (fun _ => ensures_varRule wf)
    each

/-! ### Introductions

Introduction is the same at all depths up to what is used for the parts. -/

/-- An abstraction is introduced for an arrow, from a body that is found. -/
lemma introduced_arrow {b : Option Term} (wf : (Ty.arrow A B).wellFormed = .ok true)
    (found : Found (Γ.insert x A) B b) : Introduced Γ (.arrow A B) (b.map (.abs x A ·)) := by
  intro t eq
  obtain ⟨u, rfl, rfl⟩ := Option.map_eq_some_iff.1 eq
  exact ⟨.abs (Ty.wellFormed_arrow.1 wf).1 (found u rfl), nofun⟩

lemma introduced_empty : Introduced Γ .empty (some .empty) := by
  intro t eq
  cases eq
  exact ⟨.empty, fun _ => rfl⟩

/-- A cell is there only if its value and its rest are. -/
lemma exists_of_cellOf {v r : Option Term} {t : Term} (eq : cellOf l v r = some t) :
    ∃ v' r', v = some v' ∧ r = some r' ∧ t = .cell l v' r' := by
  cases v with
  | none => cases eq
  | some v =>
    cases r with
    | none => cases eq
    | some r =>
      cases eq
      exact ⟨v, r, rfl, rfl, rfl⟩

/-- A cell is introduced for a cell, from a value that is found and a rest that is introduced. -/
lemma introduced_cell {v r : Option Term} (rec : R.isRecord) (found : Found Γ A v)
    (int : Introduced Γ R r) : Introduced Γ (.cell l A R) (cellOf l v r) := by
  intro t eq
  obtain ⟨v, r, rfl, rfl, rfl⟩ := exists_of_cellOf eq
  obtain ⟨tyR, recR⟩ := int r rfl
  exact ⟨.cell (found v rfl) tyR rec (recR rec), fun _ => rfl⟩

lemma introduced_none : Introduced Γ T none := nofun

namespace Vocabulary

/-- What is introduced without depth has the type. -/
lemma ensures_groundIntro (wf : T.wellFormed = .ok true) :
    (voc.groundIntro T Γ).Ensures (Introduced Γ T) := by
  induction T generalizing Γ with
  | arrow A B _ ihB =>
    have wfB := (Ty.wellFormed_arrow.1 wf).2
    have body : ∀ {Γ}, (tryRules B Γ (voc.groundIntro B Γ) []).Ensures (Found Γ B) :=
      ensures_tryRules wfB (ihB wfB) (List.forall_mem_nil _)
    exact .bind_any fun x => body.bind fun b found => .pure (introduced_arrow wf found)
  | empty => exact .pure introduced_empty
  | cell l A R ihA ihR =>
    obtain ⟨wfA, rec, wfR⟩ := Ty.wellFormed_cell.1 wf
    have value : (tryRules A Γ (voc.groundIntro A Γ) []).Ensures (Found Γ A) :=
      ensures_tryRules wfA (ihA wfA) (List.forall_mem_nil _)
    -- the rest is introduced as well, so it is a record
    refine value.bind fun v found => (ihR wfR).bind fun r int => .pure ?_
    exact introduced_cell rec found int
  | _ => exact .pure introduced_none

/-- What is introduced has the type, if the depth below is sound. -/
lemma ensures_introRule (sound : below.Sound) (wf : T.wellFormed = .ok true) :
    (voc.introRule below T Γ).Ensures (Introduced Γ T) := by
  cases T with
  | arrow A B =>
    have wfB := (Ty.wellFormed_arrow.1 wf).2
    refine .bind_any fun x => (sound.term wfB).bind fun b found => .pure ?_
    exact introduced_arrow wf found
  | empty => exact .pure introduced_empty
  | cell l A R =>
    obtain ⟨wfA, rec, wfR⟩ := Ty.wellFormed_cell.1 wf
    refine (sound.term wfA).bind fun v found => (sound.intro wfR).bind fun r int => .pure ?_
    exact introduced_cell rec found int
  | _ => exact .pure introduced_none

/-! ### Eliminations -/

/-- Applications that are found have the type, if the depth below is sound. -/
lemma ensures_appRule (sound : below.Sound) (d : Nat) (wf : T.wellFormed = .ok true) :
    (voc.appRule d below T Γ).Ensures (Found Γ T) := by
  refine (ensures_wfTy _).bind fun U wfU => ?_
  split
  · exact .pure found_none
  · refine (sound.term (Ty.wellFormed_arrow.2 ⟨wfU, wf⟩)).bind fun f foundF => ?_
    refine (sound.term wfU).bind fun a foundA => ?_
    split
    · refine .pure fun t eq => ?_
      cases eq
      exact .app (foundF _ rfl) (foundA _ rfl)
    · exact .pure found_none

/-- Projections that are found have the type, if the depth below is sound. -/
lemma ensures_projRule (sound : below.Sound) (wf : T.wellFormed = .ok true) :
    (voc.projRule below T Γ).Ensures (Found Γ T) := by
  refine ensures_fieldsAround.bind fun (l, before, behind) ⟨other, all⟩ => ?_
  obtain ⟨allB, allR⟩ := List.forall_mem_append.1 all
  have fields : ∀ f ∈ before ++ (l, T) :: behind, f.2.wellFormed = .ok true :=
    List.forall_mem_append.2 ⟨allB, List.forall_mem_cons.2 ⟨wf, allR⟩⟩
  -- no field before the label carries it, so what is projected is the field in the middle
  refine (sound.term (Ty.wellFormed_ofFields fields).1).bind fun r found => .pure fun t eq => ?_
  obtain ⟨u, rfl, rfl⟩ := Option.map_eq_some_iff.1 eq
  exact .proj (found u rfl) (Ty.lookup_ofFields other T behind .empty)

/-- The rules of every depth are sound. -/
lemma sound_level (d : Nat) : (voc.level d).Sound := by
  induction d with
  | zero =>
    constructor
    · intro T Γ wf
      exact ensures_groundIntro wf
    · intro T Γ wf
      exact ensures_tryRules wf (ensures_groundIntro wf) (List.forall_mem_nil _)
  | succ d ih =>
    constructor
    · intro T Γ wf
      exact ensures_introRule ih wf
    · intro T Γ wf
      refine ensures_tryRules wf (ensures_introRule ih wf) ?_
      rw [List.forall_mem_cons, List.forall_mem_singleton]
      exact ⟨ensures_appRule ih d wf, ensures_projRule ih wf⟩

/-- What a search finds has the type. -/
lemma ensures_termOf (wf : T.wellFormed = .ok true) (d : Option Int) :
    (voc.termOf T Γ d).Ensures (Found Γ T) :=
  (sound_level _).term wf

/-- A closed term that is found has the type that comes with it, and this is well formed. -/
lemma ensures_closedTerm (d : Option Int) (tries : Nat) :
    (voc.closedTerm d tries).Ensures fun o =>
      ∀ t T, o = some (t, T) → T.wellFormed = .ok true ∧ Typed ∅ t T := by
  induction tries with
  | zero => exact .pure nofun
  | succ tries ih =>
    refine (ensures_wfTy _).bind fun T wf => (ensures_termOf wf d).bind fun o found => ?_
    cases o with
    | none => exact ih
    | some t =>
      refine .pure fun u U eq => ?_
      cases eq
      exact ⟨wf, found t rfl⟩

/-- Whatever is drawn, a term that is found for a well-formed type has just that type in the
context, random well-formed types are well formed, and a closed term that is found comes with its
type. -/
theorem termOf_hasType (voc : Vocabulary) :
    (∀ T Γ d s t s', T.wellFormed = .ok true →
      (voc.termOf T Γ d).runOn s = (.ok (some t), s') → t.hasType Γ = .ok (some T)) ∧
    (∀ d s T s', (voc.wfTy (voc.depth d)).runOn s = (.ok T, s') → T.wellFormed = .ok true) ∧
    (∀ d tries s t T s', (voc.closedTerm d tries).runOn s = (.ok (some (t, T)), s') →
      T.wellFormed = .ok true ∧ t.hasType ∅ = .ok (some T)) := by
  refine ⟨?_, ?_, ?_⟩
  · intro T Γ d s t s' wf run
    exact Term.hasType_eq_some_iff.2 (ensures_termOf wf d s _ s' run t rfl)
  · intro d s T s' run
    exact ensures_wfTy _ s T s' run
  · intro d tries s t T s' run
    obtain ⟨wf, ty⟩ := ensures_closedTerm d tries s _ s' run t T rfl
    exact ⟨wf, Term.hasType_eq_some_iff.2 ty⟩

/-- A projection out of an application, in which a binder hides a variable of the context. -/
theorem termOf_hasType_hidden :
    let Γ : Env := OrderedMap.ofList [("a", .base "A")]
    let T : Ty := .arrow (.base "B") (.base "A")
    let s : Source := .ofSeed
      [3, 5, 2, 2, 9, 1, 8, 0, 0, 11, 3, 1, 7, 8, 5, 2, 9, 5, 0, 2, 2, 10, 3, 0, 10, 5, 10, 10, 2] 0
    let r : Term := .cell "i3" (.abs "a" (.base "B") (.var "b")) (.cell "i2" (.var "a") .empty)
    let t : Term := .proj (.app (.abs "b" (.base "A") r) (.var "a")) "i3"
    T.wellFormed = .ok true ∧
      (small.termOf T Γ (some 2)).runOn s = (.ok (some t), ⟨[], 0, 29⟩) ∧
      t.hasType Γ = .ok (some T) := by
  intro Γ T s r t
  have wf : T.wellFormed = .ok true := rfl
  have run : (small.termOf T Γ (some 2)).runOn s = (.ok (some t), ⟨[], 0, 29⟩) := by decide +kernel
  exact ⟨wf, run, (termOf_hasType small).1 T Γ (some 2) s t _ wf run⟩

/-- A ground type has no term without variables. More generally, if a term has a ground type in a
context, this ground type is found inside the type of one of its free variables. So a search for a
term of a ground type in the empty context comes to nothing, whatever is drawn and at every depth,
unless it fails. -/
theorem base_uninhabited (b : String) :
    (∀ t : Term, t.hasType ∅ ≠ .ok (some (.base b))) ∧
    (∀ (Γ : Env) (t : Term), t.hasType Γ = .ok (some (.base b)) →
      ∃ x ∈ t.freeVars, ∃ (U : Ty) (p : Position),
        Γ.get? x = some U ∧ p.get? Ty.parts U = some (.base b)) ∧
    (∀ (voc : Vocabulary) (d : Option Int) (s : Source) (o : Option Term) (s' : Source),
      (voc.termOf (.base b) ∅ d).runOn s = (.ok o, s') → o = none) := by
  have closed (t : Term) : ¬Typed ∅ t (.base b) := by
    intro ty
    obtain ⟨x, _, U, p, get, _⟩ := ty.exists_base
    cases get
  refine ⟨?_, ?_, ?_⟩
  · intro t has
    exact closed t (Term.hasType_eq_some_iff.1 has)
  · intro Γ t has
    exact (Term.hasType_eq_some_iff.1 has).exists_base
  · intro voc d s o s' run
    have found : Found ∅ (.base b) o := ensures_termOf rfl d s o s' run
    rw [Option.eq_none_iff_forall_not_mem]
    intro t mem
    exact closed t (found t mem)

/-- A field of a variable applied to another variable, and a search that tries applications and
projections. -/
theorem base_uninhabited_field :
    let A : Ty := .base "A"
    let R : Ty := .cell "f" (.arrow (.base "B") A) .empty
    let Γ : Env := OrderedMap.ofList [("y", .base "B"), ("r", R)]
    let t : Term := .app (.proj (.var "r") "f") (.var "y")
    let s : Source := .ofSeed
      [7, 3, 2, 3, 2, 10, 1, 11, 7, 4, 9, 7, 10, 2, 11, 7, 1, 4, 9, 4, 10, 5, 11, 0,
        8, 11, 8, 1, 3, 0, 5, 9, 9, 7, 10] 0
    t.hasType Γ = .ok (some A) ∧
      (∃ x ∈ t.freeVars, ∃ (U : Ty) (p : Position),
        Γ.get? x = some U ∧ p.get? Ty.parts U = some A) ∧
      ∃ o, (small.termOf A ∅ (some 2)).runOn s = (.ok o, ⟨[], 0, 35⟩) ∧ o = none := by
  intro A R Γ t s
  have has : t.hasType Γ = .ok (some A) := rfl
  have run : (small.termOf A ∅ (some 2)).runOn s = (.ok none, ⟨[], 0, 35⟩) := by decide +kernel
  obtain ⟨_, general, search⟩ := base_uninhabited "A"
  exact ⟨has, general Γ t has, none, run, search small (some 2) s none _ run⟩

end Vocabulary

end RecordLambda
