import RecordLambda.Meta.Check
import RecordLambda.Proofs.Dynamic.Determinism
import RecordLambda.Proofs.Dynamic.Progress
import RecordLambda.Proofs.Dynamic.SR
import RecordLambda.Proofs.Static.Validity

/-!
# The checks hold

Each property that is checked holds at every concrete term, closed or open and typed or not: its
premise is decided without a fault, and where the premise is true the conclusion is a theorem about
the typing relation and the reduction relation. So no check that is made at a term fails. Steps keep
a term concrete, hence no check along a run fails either, be the run broken off or not.
-/

namespace RecordLambda

/-! ## The properties -/

/-- A property holds if its premise is decided, and the conclusion holds where the premise does. -/
lemma holds_of_premise {α : Type} {x : Except Fault (Option α)} {o : Option α}
    {f : Option α → Except Fault Bool} (eq : x = .ok o) (no : f none = .ok true)
    (yes : ∀ a, o = some a → f (some a) = .ok true) : x >>= f = .ok true := by
  rw [eq]
  cases o with
  | none => exact no
  | some a => exact yes a rfl

lemma Env.concrete_empty : Env.Concrete ∅ := nofun

/-- A term has the type that it is asked for. -/
lemma Typed.hasType_beq {Γ : Env} {t : Term} {T : Ty} (ty : Typed Γ t T) :
    (do return (← t.hasType Γ) == some T : Except Fault Bool) = .ok true := by
  rw [Term.hasType_eq_some_iff.2 ty]
  exact congrArg Except.ok (beq_self_eq_true (some T))

namespace Value

variable {Γ : Env} {t u : Term} {x l : String} {T U : Ty}

/-- A concrete term has a type by the rules, or is said to have none. -/
lemma exists_hasType_eq_ok (conΓ : Env.Concrete Γ) (con : t.concrete) :
    ∃ o, (Value.node t).hasType Γ = .ok o ∧ ∀ T, o = some T → Typed Γ t T := by
  have has : t.hasType Γ = .ok (t.infer Γ).toOption :=
    Term.hasType_of_onlyBlames (Term.onlyBlames_infer conΓ con)
  refine ⟨_, has, ?_⟩
  intro T eq
  rw [eq] at has
  exact Term.hasType_eq_some_iff.1 has

/-- The check passes that a field of a well-formed type is well formed. -/
lemma lookupKeepsWellFormed_holds (con : T.concrete) :
    (Value.node T).lookupKeepsWellFormed l = .ok true := by
  obtain ⟨ok, eq⟩ := Ty.exists_wellFormed_eq_ok con
  rw [lookupKeepsWellFormed, wellFormed, eq]
  cases ok with
  | false => rfl
  | true =>
    cases sel : (Value.node T).lookupType l with
    | none => rfl
    | some A => exact Ty.wellFormed_lookup eq sel

/-- Where it is decided whether there is a type, the check of it holds. -/
lemma typingImpliesWellFormed_of_hasType {o : Option Ty} (has : t.hasType Γ = .ok o) :
    (Value.node t).typingImpliesWellFormed Γ = .ok true := by
  apply holds_of_premise has rfl
  intro T eq
  rw [eq] at has
  exact (Term.hasType_eq_some_iff.1 has).wellFormed

/-- The check passes that the type of a term is well formed. -/
lemma typingImpliesWellFormed_holds (conΓ : Env.Concrete Γ) (con : t.concrete) :
    (Value.node t).typingImpliesWellFormed Γ = .ok true := by
  obtain ⟨o, has, _⟩ := exists_hasType_eq_ok conΓ con
  exact typingImpliesWellFormed_of_hasType has

/-- The check passes that a value has the fields of its type. -/
lemma fieldLookupInValue_holds (con : t.concrete) :
    (Value.node t).fieldLookupInValue l = .ok true := by
  rw [fieldLookupInValue]
  cases vl : (Value.node t).isValue with
  | false => rfl
  | true =>
    obtain ⟨o, has, ty⟩ := exists_hasType_eq_ok Env.concrete_empty con
    refine holds_of_premise has rfl fun T eq => ?_
    have ty := ty T eq
    cases selT : T.lookup l with
    | none => simp only [selT]; rfl
    | some A =>
      obtain ⟨v, sel⟩ := ty.exists_lookup vl selT
      have tyV : Typed ∅ v A := ty.lookup sel selT
      have sel : (Value.node t).lookupValue l = some v := sel
      simp only [selT, sel]
      exact tyV.hasType_beq

/-- The check of progress passes. -/
lemma progress_holds (con : t.concrete) : (Value.node t).progress = .ok true := by
  obtain ⟨o, has, ty⟩ := exists_hasType_eq_ok Env.concrete_empty con
  refine holds_of_premise has rfl fun T eq => ?_
  obtain vl | ⟨t', st⟩ | ⟨x, mem, _⟩ := (ty T eq).progress
  · exact if_pos vl
  · have no : (Value.node t).isValue = false :=
      Term.isValue_eq_false_of_step (Term.step_complete st)
    have st : (Value.node t).step = .ok (some t') := Term.step_complete st
    simp only [no, st]
    rfl
  · exact absurd mem ((ty T eq).not_mem_freeVars x)

/-- The check of preservation passes. -/
lemma preservation_holds (con : t.concrete) : (Value.node t).preservation = .ok true := by
  obtain ⟨o, has, ty⟩ := exists_hasType_eq_ok Env.concrete_empty con
  obtain ⟨s, st⟩ := Term.exists_step_eq_ok con
  refine holds_of_premise has rfl fun T eq => holds_of_premise st rfl fun t' eq' => ?_
  subst eq'
  have ty' : Typed ∅ t' T := (ty T eq).sr (Term.step_sound st)
  exact ty'.hasType_beq

/-- The check passes that a step keeps a record a record. -/
lemma stepPreservesRecordShape_holds (con : t.concrete) :
    (Value.node t).stepPreservesRecordShape = .ok true := by
  rw [stepPreservesRecordShape]
  cases rec : (Value.node t).isRecordTerm with
  | false => rfl
  | true =>
    obtain ⟨s, st⟩ := Term.exists_step_eq_ok con
    refine holds_of_premise st rfl fun t' eq => ?_
    subst eq
    exact congrArg Except.ok ((Term.step_sound st).isRecord rec)

/-- The check of the substitution lemma passes. -/
lemma substitutionPreservesTyping_holds (conΓ : Env.Concrete Γ) (conU : U.concrete)
    (conV : u.concrete) (con : t.concrete) :
    substitutionPreservesTyping Γ x U u t = .ok true := by
  obtain ⟨o, has, ty⟩ := exists_hasType_eq_ok (conΓ.insert (x := x) conU) con
  obtain ⟨o', has', ty'⟩ := exists_hasType_eq_ok Env.concrete_empty conV
  refine holds_of_premise has rfl fun S eq => ?_
  simp only [has']
  by_cases e : o' = some U
  · -- the replacement is closed, so it has its type in the context too
    have tyV : Typed Γ u U := (ty' U e).of_empty
    have no : ¬(o' != some U) = true := by simp [e]
    exact (if_neg no).trans (((ty S eq).subst tyV).hasType_beq)
  · exact if_pos (bne_iff_ne.2 e)

end Value

/-- The type of a term is well formed, whatever the context declares. So the check of this holds
wherever it is decided whether the term has a type, and in particular on concrete syntax. A fault
that keeps this from being decided is the fault of the check. -/
theorem Term.hasType_wellFormed (Γ : Env) (t : Term) :
    (∀ T, t.hasType Γ = .ok (some T) → T.wellFormed = .ok true) ∧
    (∀ o, t.hasType Γ = .ok o → (Value.node t).typingImpliesWellFormed Γ = .ok true) ∧
    (Env.Concrete Γ → t.concrete → (Value.node t).typingImpliesWellFormed Γ = .ok true) ∧
    (∀ f, t.hasType Γ = .error f → (Value.node t).typingImpliesWellFormed Γ = .error f) := by
  refine ⟨?_, fun o => Value.typingImpliesWellFormed_of_hasType,
    Value.typingImpliesWellFormed_holds, ?_⟩
  · intro T ty
    exact (hasType_eq_some_iff.1 ty).wellFormed
  · intro f fault
    have fault : (Value.node t).hasType Γ = .error f := fault
    rw [Value.typingImpliesWellFormed, fault]
    rfl

/-- Of two declarations one is ill-formed. The field that is taken out of the other has a type, and
a variable with the first one has none; the check holds in both cases. -/
theorem Term.hasType_wellFormed_declared :
    let A : Ty := .base "A"
    let Γ : Env := OrderedMap.ofList [("x", .cell "l" (.arrow A A) .empty), ("y", .cell "l" A A)]
    let t : Term := .proj (.var "x") "l"
    let Δ : Env := OrderedMap.ofList [("x", .hole)]
    t.hasType Γ = .ok (some (.arrow A A)) ∧ (Ty.arrow A A).wellFormed = .ok true ∧
      (Term.var "y").hasType Γ = .ok none ∧
      (Value.node (Term.var "y")).typingImpliesWellFormed Γ = .ok true ∧
      Env.Concrete Γ ∧ t.concrete ∧ (Value.node t).typingImpliesWellFormed Γ = .ok true ∧
      t.hasType Δ = .error (.notType Ty.hole) ∧
      (Value.node t).typingImpliesWellFormed Δ = .error (.notType Ty.hole) := by
  intro A Γ t Δ
  have ty : t.hasType Γ = .ok (some (.arrow A A)) := rfl
  have none : (Term.var "y").hasType Γ = .ok none := rfl
  have fault : t.hasType Δ = .error (.notType Ty.hole) := rfl
  have conΓ : Env.Concrete Γ := (Env.concrete_empty.insert rfl).insert rfl
  have con : t.concrete := rfl
  obtain ⟨typed, -, concrete, -⟩ := hasType_wellFormed Γ t
  obtain ⟨-, decided, -, -⟩ := hasType_wellFormed Γ (.var "y")
  obtain ⟨-, -, -, faulty⟩ := hasType_wellFormed Δ t
  exact ⟨ty, typed _ ty, none, decided _ none, conΓ, con, concrete conΓ con, fault,
    faulty _ fault⟩

/-- A variable that is declared with a hole: it is not decided whether it has a type, and the check
does not come to hold. -/
theorem Term.typingImpliesWellFormed_hole :
    (Value.node (Term.var "x")).typingImpliesWellFormed (OrderedMap.ofList [("x", .hole)]) =
      .error (.notType Ty.hole) ∧
    ¬∀ (Γ : Env) (t : Term), (Value.node t).typingImpliesWellFormed Γ = .ok true := by
  have fault : (Value.node (Term.var "x")).typingImpliesWellFormed
      (OrderedMap.ofList [("x", .hole)]) = .error (.notType Ty.hole) := rfl
  refine ⟨fault, ?_⟩
  intro all
  cases fault.symm.trans (all (OrderedMap.ofList [("x", .hole)]) (.var "x"))

/-- Putting a term of the declared type for a variable keeps the type, also if the term is open and
binders have to be renamed for it. So on concrete syntax the check of this, which is about terms
that are typed without declarations, holds. -/
theorem Term.hasType_subst (Γ : Env) (x : String) (U : Ty) (v t : Term) :
    (∀ S, t.hasType (Γ.insert x U) = .ok (some S) → v.hasType Γ = .ok (some U) →
      (t.subst x v).hasType Γ = .ok (some S)) ∧
    (Env.Concrete Γ → U.concrete → v.concrete → t.concrete →
      Value.substitutionPreservesTyping Γ x U v t = .ok true) := by
  refine ⟨?_, fun conΓ conU => Value.substitutionPreservesTyping_holds conΓ conU⟩
  intro S ty tyV
  have ty := hasType_eq_some_iff.1 ty
  have tyV := hasType_eq_some_iff.1 tyV
  exact hasType_eq_some_iff.2 (ty.subst tyV)

/-- The replacement is a variable that an abstraction would capture. The parameter gets two primes,
since its name with one prime is taken too. -/
theorem Term.hasType_subst_taken :
    let A : Ty := .base "A"
    let B : Ty := .base "B"
    let Γ : Env := OrderedMap.ofList [("y", .arrow B A), ("y'", B)]
    let t : Term := .abs "y" B (.app (.var "x") (.var "y'"))
    t.subst "x" (.var "y") = .abs "y''" B (.app (.var "y") (.var "y'")) ∧
      t.hasType (Γ.insert "x" (.arrow B A)) = .ok (some (.arrow B A)) ∧
      (Term.var "y").hasType Γ = .ok (some (.arrow B A)) ∧
      (t.subst "x" (.var "y")).hasType Γ = .ok (some (.arrow B A)) ∧
      Value.substitutionPreservesTyping Γ "x" (.arrow B A) (Term.var "y") t = .ok true := by
  intro A B Γ t
  have ty : t.hasType (Γ.insert "x" (.arrow B A)) = .ok (some (.arrow B A)) := rfl
  have tyV : (Term.var "y").hasType Γ = .ok (some (.arrow B A)) := rfl
  have conΓ : Env.Concrete Γ := (Env.concrete_empty.insert rfl).insert rfl
  obtain ⟨open_, check⟩ := hasType_subst Γ "x" (.arrow B A) (.var "y") t
  exact ⟨by cbv, ty, tyV, open_ _ ty tyV, check conΓ rfl rfl rfl⟩

/-! ## The checks at a term -/

/-- A redex in a concrete term has concrete parts. -/
lemma Term.concrete_of_mem_redexes {t a b : Term} {x : String} {A : Ty} (con : t.concrete)
    (mem : (x, A, b, a) ∈ t.redexes) : A.concrete ∧ b.concrete ∧ a.concrete := by
  induction t with
  | app f a' ihf iha =>
    obtain ⟨conF, conA⟩ := concrete_app.1 con
    rcases List.mem_append.1 mem with mem | mem
    · split at mem
      · cases List.mem_singleton.1 mem
        obtain ⟨conT, conB⟩ := concrete_abs.1 conF
        exact ⟨conT, conB, conA⟩
      · cases mem
    · exact (List.mem_append.1 mem).elim (ihf conF) (iha conA)
  | abs y B b' ih => exact ih (concrete_abs.1 con).2 mem
  | proj r l ih => exact ih con mem
  | cell l v r ihv ihr =>
    obtain ⟨conV, conR⟩ := concrete_cell.1 con
    exact (List.mem_append.1 mem).elim (ihv conV) (ihr conR)
  | _ => cases mem

namespace Value

variable {t : Term} {T : Ty} {c : Check}

/-- All checks pass that go by the fields of a type. -/
lemma fieldChecks_hold (con : t.concrete) (conT : T.concrete)
    (mem : c ∈ (Value.node t).fieldChecks T) : c.verdict = .ok true := by
  obtain ⟨l, -, mem⟩ := List.mem_flatMap.1 mem
  simp only [List.mem_cons, List.not_mem_nil, or_false] at mem
  rcases mem with rfl | rfl
  · exact lookupKeepsWellFormed_holds conT
  · exact fieldLookupInValue_holds con

/-- All checks pass that go by the redexes of a term. -/
lemma redexChecks_hold (con : t.concrete) (mem : c ∈ (Value.node t).redexChecks) :
    c.verdict = .ok true := by
  obtain ⟨⟨x, A, b, a⟩, closed, rfl⟩ := List.mem_map.1 mem
  obtain ⟨conA, conB, conV⟩ := Term.concrete_of_mem_redexes con (List.mem_filter.1 closed).1
  exact substitutionPreservesTyping_holds Env.concrete_empty conA conV conB

/-- Every check at a concrete term holds. -/
lemma checks_hold (con : t.concrete) (mem : c ∈ (Value.node t).checks) :
    c.verdict = .ok true := by
  rw [checks, List.mem_append, List.mem_append] at mem
  rcases mem with (mem | mem) | mem
  · simp only [List.mem_cons, List.not_mem_nil, or_false] at mem
    rcases mem with rfl | rfl | rfl | rfl | rfl
    · exact typingImpliesWellFormed_holds Env.concrete_empty con
    · exact progress_holds con
    · exact preservation_holds con
    · obtain ⟨s, st⟩ := Term.exists_step_eq_ok con
      exact Term.determinism_of_step st
    · exact stepPreservesRecordShape_holds con
  · split at mem
    · rename_i T has
      have ty : Typed ∅ t T := Term.hasType_eq_some_iff.1 has
      exact fieldChecks_hold con ty.concrete_ty mem
    · cases mem
  · exact redexChecks_hold con mem

end Value

/-! ## Reports -/

/-- Checks that hold are counted, and nothing else happens. -/
lemma Report.enterAll_of_hold {cs : List Check} (hold : ∀ c ∈ cs, c.verdict = .ok true)
    (r : Report) : r.enterAll cs = (⟨r.checked + cs.length, r.counterexamples⟩, none) := by
  induction cs generalizing r with
  | nil => simp [enterAll]
  | cons c cs ih =>
    obtain ⟨hold, rest⟩ := List.forall_mem_cons.1 hold
    rw [enterAll, hold]
    simp only [ih rest, enter, if_true, List.length_cons]
    congr 2
    omega

/-- All checks on a concrete term pass. -/
lemma Value.check_of_concrete {t : Term} (con : t.concrete) :
    (Value.node t).check = .ok ⟨(Value.node t).checks.length, []⟩ := by
  have all := Report.enterAll_of_hold (fun c => Value.checks_hold con) .empty
  rw [check, checkInto, all]
  simp [Report.empty]

/-- All checks on a run through concrete terms pass. -/
lemma Run.check_of_concrete {r : Run} (con : ∀ u ∈ r.trace, u.concrete) :
    r.check = .ok ⟨(r.trace.flatMap fun u : Term => Value.checks u).length, []⟩ := by
  have hold : ∀ c ∈ r.trace.flatMap fun u : Term => Value.checks u, c.verdict = .ok true := by
    intro c mem
    obtain ⟨u, mem, memC⟩ := List.mem_flatMap.1 mem
    exact Value.checks_hold (con u mem) memC
  rw [check, Report.enterAll_of_hold hold]
  simp [Report.empty]

/-- The terms of a run of a concrete term are concrete. -/
lemma HandsOut.concrete {limit : Limit} {t u : Term} {r : Run} (out : HandsOut limit t r)
    (con : t.concrete) (mem : u ∈ r.trace) : u.concrete :=
  (Term.steps_of_handsOut out mem).concrete con

/-- The report on a program with free variables: one check, which failed. -/
def Report.notClosed (t : Term) : Report :=
  let names := Text.commaSep ((sortNames t.freeVars).map Text.quote)
  ⟨1, [⟨"closed", Value.node t, "free variables [" ++ names ++ "]"⟩]⟩

namespace Term

variable {t : Term}

/-- A closed term is run, and the checks are made along what there is of its run. -/
lemma checkProgram_of_closed (cl : t.closed) {horizon : Nat} {maxSteps : Option Int} {limit : Limit}
    (lim : Limit.of horizon maxSteps = .ok limit) :
    (Value.node t).checkProgram horizon maxSteps =
      match t.evaluate limit with
      | .ok run => run.check
      | .error (.outOfFuel _ run) => run.check
      | .error (.unfinished run) => .error (.unfinished run)
      | .error (.fault f) => .error (.fault f) := by
  have fv : (Value.node t).freeVars = .ok [] := congrArg Except.ok (List.isEmpty_iff.1 cl)
  rw [Value.checkProgram, fv, lim]
  rfl

/-- A term with free variables is not run. -/
lemma checkProgram_of_not_closed (op : t.closed = false) (horizon : Nat) (maxSteps : Option Int) :
    (Value.node t).checkProgram horizon maxSteps =
      .ok (.notClosed t) := by
  have fv : (Value.node t).freeVars = .ok t.freeVars := rfl
  have op : t.freeVars.isEmpty = false := op
  rw [Value.checkProgram, fv]
  simp only [bind, Except.bind, Except.mapError, op]
  rfl

/-- No check at a concrete term fails, whatever its free variables and its type. If the term is
closed, no check along its run fails: neither under any limit, also when the run is broken off
there, nor without a limit when the run comes to an end. If it is not closed, the only check that is
made of it as a program is that of being closed, and it fails. -/
theorem checks_raise_no_alarm {t : Term} (con : t.concrete) :
    (Value.node t).check = .ok ⟨(Value.node t).checks.length, []⟩ ∧
      (t.closed → ∀ horizon n : Nat, ∃ r, HandsOut (.atMost n) t r ∧
        (Value.node t).checkProgram horizon (some n) =
          .ok ⟨(r.trace.flatMap fun u : Term => Value.checks u).length, []⟩) ∧
      (t.closed → ∀ horizon r, t.evaluate (.unlimited horizon) = .ok r →
        (Value.node t).checkProgram horizon none =
          .ok ⟨(r.trace.flatMap fun u : Term => Value.checks u).length, []⟩) ∧
      (t.closed = false → ∀ horizon maxSteps,
        (Value.node t).checkProgram horizon maxSteps = .ok (.notClosed t)) := by
  refine ⟨Value.check_of_concrete con, ?_, ?_, checkProgram_of_not_closed⟩
  · intro cl horizon n
    have lim : Limit.of horizon (some n) = .ok (.atMost n) := by simp [Limit.of]
    obtain ⟨ts, done, walk⟩ := exists_walk_eq_ok con n
    have out : HandsOut (.atMost n) t ⟨t, ts⟩ := handsOut_of_walk walk
    have all : Run.check ⟨t, ts⟩ = _ := Run.check_of_concrete fun u => out.concrete con
    refine ⟨_, out, ?_⟩
    rw [checkProgram_of_closed cl lim, evaluate, Limit.reach, walk]
    cases done with
    | true => exact all
    | false => exact all
  · intro cl horizon r eq
    have all : r.check = _ := Run.check_of_concrete fun u => (HandsOut.done eq).concrete con
    rw [checkProgram_of_closed cl rfl, eq]
    exact all

/-- A program that has no type and never ends: each of its steps leads back to it. -/
theorem checks_raise_no_alarm_loop :
    let w : Term := .abs "x" .empty (.app (.var "x") (.var "x"))
    let t : Term := .app w w
    t.concrete ∧ t.closed ∧ t.hasType ∅ = .ok none ∧ t.step = .ok (some t) ∧
      ∃ checked, (Value.node t).checkProgram 0 (some 2) = .ok ⟨checked, []⟩ := by
  intro w t
  have con : t.concrete := rfl
  have cl : t.closed := rfl
  have has : t.hasType ∅ = .ok none := rfl
  have st : t.step = .ok (some t) := by cbv
  obtain ⟨r, _, eq⟩ := (checks_raise_no_alarm con).2.1 cl 0 2
  exact ⟨con, cl, has, st, _, eq⟩

end Term

end RecordLambda
