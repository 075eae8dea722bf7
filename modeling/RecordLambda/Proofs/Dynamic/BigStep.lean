import RecordLambda.Proofs.Dynamic.Run

/-!
# Natural semantics

The rules of natural semantics evaluate a term to its value at once, by evaluating its parts.
`bigStep_iff_steps` says that they derive a value just where steps lead to it, for terms of all
kinds: untyped ones, open ones, and chains that do not end in a record.

- From the rules to the steps: the parts are evaluated in place, one after the other, in the order
  in which the steps take them.
- From the steps to the rules: a value evaluates to itself, and a step does not change what a term
  evaluates to, `Step.bigStep`; so this is an induction on the steps from their end.
-/

namespace RecordLambda

/-- The first term evaluates to the second. -/
inductive BigStep : Term → Term → Prop where
  | abs {x A b} :
    BigStep (.abs x A b) (.abs x A b)
  | empty :
    BigStep .empty .empty
  | cell {l h v r w} :
    BigStep h v →
    BigStep r w →
    BigStep (.cell l h r) (.cell l v w)
  | app {f a x A b w v} :
    BigStep f (.abs x A b) →
    BigStep a w →
    BigStep (b.subst x w) v →
    BigStep (.app f a) v
  | proj {r l w v} :
    BigStep r w →
    w.lookup l = some v →
    BigStep (.proj r l) v

variable {t t' v w r : Term} {l : String}

/-! ## Values -/

/-- A record of values has values in its fields. -/
lemma Term.isValue_lookup (vl : r.isValue) (sel : r.lookup l = some v) : v.isValue := by
  induction r with
  | cell l' h r _ ihr =>
    obtain ⟨vlH, vlR⟩ := isValue_cell.1 vl
    rw [lookup] at sel
    split at sel
    · cases sel
      exact vlH
    · exact ihr vlR sel
  | _ => cases sel

namespace BigStep

/-- What a term evaluates to is a value. -/
lemma isValue (ev : BigStep t v) : v.isValue := by
  induction ev with
  | abs => rfl
  | empty => rfl
  | cell _ _ ihh ihr => exact Term.isValue_cell.2 ⟨ihh, ihr⟩
  | app _ _ _ _ _ ihv => exact ihv
  | proj _ sel ih => exact Term.isValue_lookup ih sel

/-- A value evaluates to itself. -/
lemma of_isValue (vl : v.isValue) : BigStep v v := by
  induction v with
  | abs x A b _ => exact .abs
  | empty => exact .empty
  | cell l h r ihh ihr =>
    obtain ⟨vlH, vlR⟩ := Term.isValue_cell.1 vl
    exact .cell (ihh vlH) (ihr vlR)
  | _ => cases vl

/-- A value evaluates to nothing else. -/
lemma eq_of_isValue (ev : BigStep v w) (vl : v.isValue) : w = v := by
  induction ev with
  | abs => rfl
  | empty => rfl
  | cell _ _ ihh ihr =>
    obtain ⟨vlH, vlR⟩ := Term.isValue_cell.1 vl
    rw [ihh vlH, ihr vlR]
  | _ => cases vl

/-! ## From the rules to the steps -/

/-- What a term evaluates to is reached by steps. -/
lemma steps (ev : BigStep t v) : Steps t v := by
  induction ev with
  | abs => exact .refl
  | empty => exact .refl
  | @cell l h v r w evH _ ihh ihr =>
    calc
      Steps (.cell l h r) (.cell l v r) := ihh.cellValue
      Steps _ (.cell l v w) := ihr.cellRest evH.isValue
  | @app f a x A b w v _ evA _ ihf iha ihv =>
    calc
      Steps (.app f a) (.app (.abs x A b) a) := ihf.appFn
      Steps _ (.app (.abs x A b) w) := iha.appArg rfl
      Steps _ v := .head (.beta evA.isValue) ihv
  | proj evR sel ih => exact .tail ih.projRecord (.projField evR.isValue sel)

end BigStep

/-! ## From the steps to the rules -/

/-- A step does not change what a term evaluates to. -/
lemma Step.bigStep (st : Step t t') (ev : BigStep t' v) : BigStep t v := by
  induction st generalizing v with
  | appFn _ ih =>
    cases ev with
    | app evF evA evV => exact .app (ih evF) evA evV
  | appArg _ _ ih =>
    cases ev with
    | app evF evA evV => exact .app evF (ih evA) evV
  | beta vl => exact .app .abs (.of_isValue vl) ev
  | projRecord _ ih =>
    cases ev with
    | proj evR sel => exact .proj (ih evR) sel
  | projField vl sel =>
    -- the field is a value, so it is what it evaluates to
    cases ev.eq_of_isValue (Term.isValue_lookup vl sel)
    exact .proj (.of_isValue vl) sel
  | cellValue _ ih =>
    cases ev with
    | cell evH evR => exact .cell (ih evH) evR
  | cellRest _ _ ih =>
    cases ev with
    | cell evH evR => exact .cell evH (ih evR)

/-- Where steps lead to a value, the rules derive it. -/
lemma Steps.bigStep (rd : Steps t v) (vl : v.isValue) : BigStep t v := by
  induction rd using Relation.ReflTransGen.head_induction_on with
  | refl => exact .of_isValue vl
  | head st _ ih => exact st.bigStep ih

/-- The rules derive the values that steps lead to, and nothing else. -/
lemma bigStep_iff_steps : BigStep t v ↔ Steps t v ∧ v.isValue :=
  ⟨fun ev => ⟨ev.steps, ev.isValue⟩, fun ⟨rd, vl⟩ => rd.bigStep vl⟩

/-! ## Evaluation -/

namespace Term

/-- A run that came to a value came to what the term evaluates to. -/
lemma bigStep_of_evaluate {limit : Limit} {r : Run} (ev : t.evaluate limit = .ok r)
    (vl : r.isValue) : BigStep t r.term :=
  bigStep_iff_steps.2 ⟨steps_of_handsOut (.done ev) r.term_mem_trace, vl⟩

/-- What a term evaluates to is reached by a run, under every limit from some number of steps on. -/
lemma evaluate_of_bigStep (ev : BigStep t v) :
    ∃ (n : Nat) (r : Run), r.isValue ∧ r.term = v ∧ ∀ limit : Limit, n ≤ limit.reach →
      t.evaluate limit = .ok r := by
  obtain ⟨rd, vl⟩ := bigStep_iff_steps.1 ev
  obtain ⟨ts, last, walk⟩ := walk_of_steps rd (step_of_isValue vl)
  have term : (Run.mk t ts).term = v := last
  refine ⟨ts.length, ⟨t, ts⟩, ?_, term, ?_⟩
  · rw [Run.isValue, term]
    exact vl
  · intro limit le
    exact evaluate_of_walk (walk limit.reach le)

/-- Evaluation agrees with natural semantics: a term evaluates to `v` by the rules if and only if
its run, with enough steps allowed or without a limit, ends in the value `v`. -/
theorem bigStep_iff_evaluate (t v : Term) :
    (BigStep t v ↔ ∃ (n : Nat) (r : Run),
      t.evaluate (.atMost n) = .ok r ∧ r.isValue ∧ r.term = v) ∧
    (BigStep t v ↔ ∃ (horizon : Nat) (r : Run),
      t.evaluate (.unlimited horizon) = .ok r ∧ r.isValue ∧ r.term = v) := by
  refine ⟨⟨?_, ?_⟩, ?_, ?_⟩
  · intro ev
    obtain ⟨n, r, vl, term, run⟩ := evaluate_of_bigStep ev
    exact ⟨n, r, run (.atMost n) (Nat.le_refl n), vl, term⟩
  · rintro ⟨n, r, run, vl, rfl⟩
    exact bigStep_of_evaluate run vl
  · intro ev
    obtain ⟨n, r, vl, term, run⟩ := evaluate_of_bigStep ev
    exact ⟨n, r, run (.unlimited n) (Nat.le_refl n), vl, term⟩
  · rintro ⟨n, r, run, vl, rfl⟩
    exact bigStep_of_evaluate run vl

end Term

end RecordLambda
