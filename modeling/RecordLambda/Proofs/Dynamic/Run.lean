import RecordLambda.Dynamic.Eval
import RecordLambda.Proofs.Dynamic.Step

/-!
# Runs

An evaluation hands out a run: as its result, or along with the error when the run is broken off at
the limit. Every term of a run is reached from the first one by steps, and conversely a term that
reduces to one without a step has a run that ends there under every limit that is large enough.
-/

namespace RecordLambda

/-- The run `r` is what evaluating `t` comes to, or what there is of it at the limit. -/
inductive HandsOut (limit : Limit) (t : Term) (r : Run) : Prop where
  | done :
    t.evaluate limit = .ok r →
    HandsOut limit t r
  | outOfFuel {n} :
    t.evaluate limit = .error (.outOfFuel n r) →
    HandsOut limit t r
  | unfinished :
    t.evaluate limit = .error (.unfinished r) →
    HandsOut limit t r

/-- At most `n` steps lead from the term through the others, and the flag says that there is no step
after them. -/
inductive Walk : Nat → Term → List Term → Bool → Prop where
  | stop {n t} :
    t.step = .ok none →
    Walk n t [] true
  | limit {t t'} :
    Step t t' →
    Walk 0 t [] false
  | step {n t t' ts done} :
    Step t t' →
    Walk n t' ts done →
    Walk (n + 1) t (t' :: ts) done

/-- Only one run is handed out. -/
lemma HandsOut.unique {limit : Limit} {t : Term} {r r' : Run} (out : HandsOut limit t r)
    (out' : HandsOut limit t r') : r = r' := by
  rcases out with eq | eq | eq <;> rcases out' with eq' | eq' | eq' <;>
    cases eq.symm.trans eq' <;> rfl

/-- The last term is one of the run. -/
lemma Run.term_mem_trace (r : Run) : r.term ∈ r.trace := by
  rw [term, trace]
  cases eq : r.later.getLast? with
  | none => simp [List.getLastD_eq_getLast?, eq]
  | some t =>
    rw [List.getLastD_eq_getLast?, eq]
    exact List.mem_cons_of_mem _ (List.mem_of_getLast? eq)

/-- The terms of a walk are reached by steps. -/
lemma Walk.steps {n : Nat} {t u : Term} {ts : List Term} {done : Bool} (walk : Walk n t ts done)
    (mem : u ∈ t :: ts) : Steps t u := by
  induction walk with
  | stop _ =>
    cases List.mem_singleton.1 mem
    exact .refl
  | limit _ =>
    cases List.mem_singleton.1 mem
    exact .refl
  | step st _ ih =>
    rcases List.mem_cons.1 mem with rfl | mem
    · exact .refl
    · exact .head st (ih mem)

namespace Term

variable {t t' u : Term} {ts : List Term} {done : Bool} {n : Nat}

/-! ## Walking -/

/-- A walk from a term without a step is done at once. -/
lemma walk_of_step_none (eq : t.step = .ok none) (n : Nat) : t.walk n = .ok ([], true) := by
  rw [walk, eq]

/-- A walk that may make no step is broken off at a term with one. -/
lemma walk_zero_of_step (st : Step t t') : t.walk 0 = .ok ([], false) := by
  rw [walk, step_complete st]

/-- A step in front of a walk. -/
lemma walk_succ_of_step (st : Step t t') (eq : t'.walk n = .ok (ts, done)) :
    t.walk (n + 1) = .ok (t' :: ts, done) := by
  rw [walk, step_complete st]
  simp only [eq]

/-- The relation is the graph of the function. -/
lemma walk_eq_ok_iff : t.walk n = .ok (ts, done) ↔ Walk n t ts done := by
  constructor
  · intro eq
    fun_induction walk n t generalizing ts with
    | case1 n t f st => cases eq
    | case2 n t st =>
      cases eq
      exact .stop st
    | case3 t t' st =>
      cases eq
      exact .limit (step_sound st)
    | case4 t t' st n f more ih => cases eq
    | case5 t t' st n ts' done' more ih =>
      cases eq
      exact .step (step_sound st) (ih more)
  · intro walk
    induction walk with
    | stop st => exact walk_of_step_none st _
    | limit st => exact walk_zero_of_step st
    | step st _ ih => exact walk_succ_of_step st ih

/-- A walk meets a fault only at a term that is reached by steps. -/
lemma steps_of_walk_error {f : Fault} (eq : t.walk n = .error f) :
    ∃ u, Steps t u ∧ u.step = .error f := by
  fun_induction walk n t with
  | case1 n t g st =>
    cases eq
    exact ⟨t, .refl, st⟩
  | case2 n t st => cases eq
  | case3 t t' st => cases eq
  | case4 t t' st n g more ih =>
    cases eq
    obtain ⟨u, rd, err⟩ := ih more
    exact ⟨u, .head (step_sound st) rd, err⟩
  | case5 t t' st n ts' done' more ih => cases eq

/-- Reduction to a term without a step is a walk that any number of steps from its own on allows. -/
lemma walk_of_steps (rd : Steps t u) (stop : u.step = .ok none) :
    ∃ ts, ts.getLastD t = u ∧ ∀ n, ts.length ≤ n → t.walk n = .ok (ts, true) := by
  induction rd using Relation.ReflTransGen.head_induction_on with
  | refl => exact ⟨[], rfl, fun n _ => walk_of_step_none stop n⟩
  | @head t t' st _ ih =>
    obtain ⟨ts, last, walk⟩ := ih
    refine ⟨t' :: ts, ?_, ?_⟩
    · rw [List.getLastD_cons, last]
    · rintro (_ | n) le
      · cases le
      · exact walk_succ_of_step st (walk n (Nat.le_of_succ_le_succ le))

/-! ## Evaluating -/

variable {limit : Limit} {r : Run}

/-- A walk that is done is a complete run. -/
lemma evaluate_of_walk (eq : t.walk limit.reach = .ok (ts, true)) :
    t.evaluate limit = .ok ⟨t, ts⟩ := by
  rw [evaluate, eq]

/-- A walk that is broken off is a run that is out of fuel. -/
lemma evaluate_of_walk_false (eq : t.walk n = .ok (ts, false)) :
    t.evaluate (.atMost n) = .error (.outOfFuel n ⟨t, ts⟩) := by
  rw [evaluate, Limit.reach, eq]

/-- The run that is handed out is the walk, done or not. -/
lemma handsOut_of_walk (eq : t.walk limit.reach = .ok (ts, done)) : HandsOut limit t ⟨t, ts⟩ := by
  cases done with
  | true => exact .done (evaluate_of_walk eq)
  | false =>
    cases limit with
    | atMost n => exact .outOfFuel (evaluate_of_walk_false eq)
    | unlimited n =>
      apply HandsOut.unfinished
      rw [evaluate, eq]

/-- The run that is handed out is the walk up to the limit. -/
lemma walk_of_handsOut (out : HandsOut limit t r) :
    ∃ ts done, r = ⟨t, ts⟩ ∧ Walk limit.reach t ts done := by
  rcases eq : t.walk limit.reach with f | ⟨ts, done⟩
  · have ev : t.evaluate limit = .error (.fault f) := by rw [evaluate, eq]
    rcases out with out | out | out <;> cases ev.symm.trans out
  · exact ⟨ts, done, out.unique (handsOut_of_walk eq), walk_eq_ok_iff.1 eq⟩

/-- The result is a walk that came to its end. -/
lemma evaluate_eq_ok_iff :
    t.evaluate limit = .ok r ↔ ∃ ts, r = ⟨t, ts⟩ ∧ Walk limit.reach t ts true := by
  constructor
  · intro ev
    obtain ⟨ts, done, rfl, walk⟩ := walk_of_handsOut (.done ev)
    cases done with
    | true => exact ⟨ts, rfl, walk⟩
    | false =>
      rw [evaluate, walk_eq_ok_iff.2 walk] at ev
      cases limit <;> cases ev
  · intro ⟨ts, eq, walk⟩
    rw [eq]
    exact evaluate_of_walk (walk_eq_ok_iff.2 walk)

/-- All terms of the run that is handed out are reached by steps. -/
lemma steps_of_handsOut (out : HandsOut limit t r) (mem : u ∈ r.trace) : Steps t u := by
  obtain ⟨ts, done, rfl, walk⟩ := walk_of_handsOut out
  exact walk.steps mem

end Term

end RecordLambda
