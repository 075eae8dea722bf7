import RecordLambda.Proofs.Dynamic.Concrete

/-!
# Limits of runs

The terms after 0, 1, 2, … steps make up a sequence, `Term.after`, that goes on as long as there is
a step. The run under a limit is the beginning of this sequence: all of it if it stops within the
limit, and otherwise the part that takes just as many steps as the limit allows. So a limit does not
change a run, it only says how much of it there is.

A run that came to its end is stuck or has a value, as it says of itself. A run that was broken off
says that it is stuck, although its last term has a step.
-/

namespace RecordLambda

/-- The term after `i` steps from `t`, if there are so many. -/
def Term.after (t : Term) : Nat → Except Fault (Option Term)
  | 0 => .ok (some t)
  | i + 1 => do
    match ← t.after i with
    | none => return none
    | some u => u.step

/-! ## The sequence of terms -/

namespace Term

variable {t t' u u' : Term} {i j k : Nat}

/-- The step behind the `i`-th term. -/
lemma after_succ_of_some (eq : t.after i = .ok (some u)) : t.after (i + 1) = u.step := by
  rw [after, eq]
  rfl

/-- Behind the end nothing comes. -/
lemma after_succ_of_none (eq : t.after i = .ok none) : t.after (i + 1) = .ok none := by
  rw [after, eq]
  rfl

/-- The sequence goes on from the second term as that term's own sequence. -/
lemma after_succ_of_step (st : Step t t') (i : Nat) : t.after (i + 1) = t'.after i := by
  induction i with
  | zero =>
    rw [after_succ_of_some rfl, step_complete st]
    rfl
  | succ i ih =>
    rw [after, ih]
    rfl

/-- The term after some steps is a reduct. -/
lemma steps_of_after (eq : t.after i = .ok (some u)) : Steps t u := by
  induction i generalizing u with
  | zero =>
    cases eq
    exact .refl
  | succ i ih =>
    rcases prev : t.after i with f | _ | w
    · rw [after, prev] at eq
      cases eq
    · rw [after_succ_of_none prev] at eq
      cases eq
    · rw [after_succ_of_some prev] at eq
      exact .tail (ih prev) (step_sound eq)

/-- There is nothing behind a term without a step. -/
lemma after_of_lt (eq : t.after k = .ok (some u)) (stop : u.step = .ok none) (lt : k < j) :
    t.after j = .ok none := by
  induction lt with
  | refl => rw [after_succ_of_some eq, stop]
  | step _ ih => exact after_succ_of_none ih

/-- The sequence stops at one place only. -/
lemma stop_unique (eq : t.after j = .ok (some u)) (stop : u.step = .ok none)
    (eq' : t.after k = .ok (some u')) (stop' : u'.step = .ok none) : j = k := by
  obtain lt | e | gt := Nat.lt_trichotomy j k
  · cases (after_of_lt eq stop lt).symm.trans eq'
  · exact e
  · cases (after_of_lt eq' stop' gt).symm.trans eq

end Term

/-! ## Walks along the sequence -/

namespace Walk

variable {t u : Term} {ts ts' : List Term} {done done' : Bool} {k m n : Nat}

/-- A walk goes through the sequence from its beginning. -/
lemma trace (walk : Walk n t ts done) :
    (t :: ts).map (fun u => .ok (some u)) = (List.range (ts.length + 1)).map t.after := by
  induction walk with
  | stop _ => rfl
  | limit _ => rfl
  | @step n t t' ts done st _ ih =>
    have shift : t.after ∘ Nat.succ = t'.after := funext (Term.after_succ_of_step st)
    rw [List.map_cons, ih, List.length_cons, List.range_succ_eq_map (n := ts.length + 1),
      List.map_cons, List.map_map, shift]
    rfl

/-- A walk ends at the term that comes after as many steps as it has made. -/
lemma after_length (walk : Walk n t ts done) : t.after ts.length = .ok (some (ts.getLastD t)) := by
  induction walk with
  | stop _ => rfl
  | limit _ => rfl
  | step st _ ih =>
    rw [List.length_cons, Term.after_succ_of_step st, List.getLastD_cons]
    exact ih

/-- A walk makes no more steps than it may. -/
lemma length_le (walk : Walk n t ts done) : ts.length ≤ n := by
  induction walk with
  | stop _ => exact Nat.zero_le _
  | limit _ => exact Nat.le_refl 0
  | step _ _ ih => exact Nat.succ_le_succ ih

/-- A walk that does not come to the end takes all its steps. -/
lemma length_eq (walk : Walk n t ts done) (more : done = false) : ts.length = n := by
  induction walk with
  | stop _ => cases more
  | limit _ => rfl
  | step _ _ ih => exact congrArg Nat.succ (ih more)

/-- The flag tells whether the last term has a step. -/
lemma step_last (walk : Walk n t ts done) :
    ∃ s, (ts.getLastD t).step = .ok s ∧ s.isNone = done := by
  induction walk with
  | stop st => exact ⟨none, st, rfl⟩
  | @limit t t' st => exact ⟨some t', Term.step_complete st, rfl⟩
  | step _ _ ih =>
    rw [List.getLastD_cons]
    exact ih

/-- A walk that is done ends at a term without a step. -/
lemma step_last_of_done (walk : Walk n t ts true) : (ts.getLastD t).step = .ok none := by
  obtain ⟨s, eq, none⟩ := walk.step_last
  rw [eq, Option.isNone_iff_eq_none.1 none]

/-- A walk that is broken off ends at a term with a step. -/
lemma step_last_of_more (walk : Walk n t ts false) :
    ∃ u, (ts.getLastD t).step = .ok (some u) := by
  obtain ⟨s, eq, some⟩ := walk.step_last
  obtain ⟨u, rfl⟩ := Option.isSome_iff_exists.1 (Option.isNone_eq_false_iff.1 some)
  exact ⟨u, eq⟩

/-- If the sequence stops, every walk that may go so far comes to its end. -/
lemma of_after (eq : t.after k = .ok (some u)) (stop : u.step = .ok none) :
    ∃ ts, ts.length = k ∧ ts.getLastD t = u ∧ ∀ n, k ≤ n → Walk n t ts true := by
  obtain ⟨ts, last, all⟩ := Term.walk_of_steps (Term.steps_of_after eq) stop
  have walk : ∀ n, ts.length ≤ n → Walk n t ts true := fun n le => Term.walk_eq_ok_iff.1 (all n le)
  have reached := (walk ts.length (Nat.le_refl _)).after_length
  rw [last] at reached
  have len : ts.length = k := Term.stop_unique reached stop eq stop
  exact ⟨ts, len, last, len ▸ walk⟩

/-- A walk that comes to the end is the same for all numbers of steps that allow it. -/
lemma of_done (walk : Walk n t ts true) (le : ts.length ≤ m) : Walk m t ts true := by
  obtain ⟨ts', -, -, all⟩ := of_after walk.after_length walk.step_last_of_done
  have eq := Term.walk_eq_ok_iff.2 walk
  cases eq.symm.trans (Term.walk_eq_ok_iff.2 (all n walk.length_le))
  exact all m le

/-- If more steps are allowed, a walk goes the same way and perhaps further. -/
lemma goes_on (walk : Walk m t ts done) (walk' : Walk n t ts' done') (le : m ≤ n) : ts <+: ts' := by
  induction walk generalizing n ts' with
  | stop _ => exact List.nil_prefix
  | limit _ => exact List.nil_prefix
  | step st _ ih =>
    cases walk' with
    | stop stop => cases (Term.step_complete st).symm.trans stop
    | limit _ => cases le
    | step st' walk' =>
      cases (Term.step_complete st).symm.trans (Term.step_complete st')
      exact (List.prefix_cons_inj _).2 (ih walk' (Nat.le_of_succ_le_succ le))

end Walk

/-! ## Runs -/

namespace Term

/-- A limit is exact, and runs under different limits go the same way. If the sequence of terms
stops within the limit, evaluation comes to the run through all of it; otherwise the run is broken
off after just as many steps as the limit allows. So a run that came to its end is the run under
every limit that it does not exceed, and without a limit; and the run under a smaller limit is how
the run under a larger one begins. -/
theorem evaluate_exact {t : Term} (con : t.concrete) :
    (∀ n k u, k ≤ n → t.after k = .ok (some u) → u.step = .ok none →
      ∃ r, t.evaluate (.atMost n) = .ok r ∧
        r.trace.map (fun u => .ok (some u)) = (List.range (k + 1)).map t.after ∧
        r.steps = k ∧ r.term = u) ∧
    (∀ n, (∀ k u, k ≤ n → t.after k = .ok (some u) → u.step ≠ .ok none) →
      ∃ r, t.evaluate (.atMost n) = .error (.outOfFuel n r) ∧
        r.trace.map (fun u => .ok (some u)) = (List.range (n + 1)).map t.after ∧
        r.steps = n) ∧
    (∀ limit r, t.evaluate limit = .ok r → r.term.step = .ok none ∧ r.steps ≤ limit.reach ∧
      ∀ limit' : Limit, r.steps ≤ limit'.reach → t.evaluate limit' = .ok r) ∧
    (∀ (limit limit' : Limit) r r', limit.reach ≤ limit'.reach → HandsOut limit t r →
      HandsOut limit' t r' → r.trace <+: r'.trace) := by
  refine ⟨?_, ?_, ?_, ?_⟩
  · intro n k u le eq stop
    obtain ⟨ts, len, last, walk⟩ := Walk.of_after eq stop
    refine ⟨⟨t, ts⟩, evaluate_eq_ok_iff.2 ⟨ts, rfl, walk n le⟩, ?_, len, last⟩
    rw [← len]
    exact (walk n le).trace
  · intro n goes
    obtain ⟨ts, done, eq⟩ := exists_walk_eq_ok con n
    have walk := walk_eq_ok_iff.1 eq
    cases done with
    | true => exact absurd walk.step_last_of_done (goes _ _ walk.length_le walk.after_length)
    | false =>
      have len := walk.length_eq rfl
      refine ⟨⟨t, ts⟩, evaluate_of_walk_false eq, ?_, len⟩
      rw [← len]
      exact walk.trace
  · intro limit r ev
    obtain ⟨ts, rfl, walk⟩ := evaluate_eq_ok_iff.1 ev
    refine ⟨walk.step_last_of_done, walk.length_le, ?_⟩
    intro limit' le
    exact evaluate_eq_ok_iff.2 ⟨ts, rfl, walk.of_done le⟩
  · intro limit limit' r r' le out out'
    obtain ⟨ts, done, rfl, walk⟩ := walk_of_handsOut out
    obtain ⟨ts', done', rfl, walk'⟩ := walk_of_handsOut out'
    exact (List.prefix_cons_inj t).2 (walk.goes_on walk' le)

/-- A term that stops after two steps, and one that never does: each of its steps leads back to it.
-/
theorem evaluate_exact_two :
    let i : Term := .abs "x" .empty (.var "x")
    let t : Term := .app (.abs "f" (.arrow .empty .empty) (.app (.var "f") .empty)) i
    let w : Term := .abs "x" .empty (.app (.var "x") (.var "x"))
    t.concrete ∧ t.after 2 = .ok (some .empty) ∧ Term.empty.step = .ok none ∧
      (∃ r r', t.evaluate (.atMost 2) = .ok r ∧ r.trace = [t, .app i .empty, .empty] ∧
        (∀ horizon ≥ 2, t.evaluate (.unlimited horizon) = .ok r) ∧
        t.evaluate (.atMost 1) = .error (.outOfFuel 1 r') ∧ r'.trace <+: r.trace) ∧
      (app w w).concrete ∧ (∀ k, (app w w).after k = .ok (some (.app w w))) ∧
      ∀ n, ∃ r, (app w w).evaluate (.atMost n) = .error (.outOfFuel n r) ∧ r.steps = n := by
  intro i t w
  have con : t.concrete := rfl
  have conW : (app w w).concrete := rfl
  have two : t.after 2 = .ok (some .empty) := by cbv
  have one : t.evaluate (.atMost 1) = .error (.outOfFuel 1 ⟨t, [.app i .empty]⟩) := by cbv
  have loop : (app w w).step = .ok (some (.app w w)) := by cbv
  have all : ∀ k, (app w w).after k = .ok (some (.app w w)) := by
    intro k
    induction k with
    | zero => rfl
    | succ k ih => rw [after_succ_of_some ih, loop]
  obtain ⟨stops, -, finished, begins⟩ := evaluate_exact con
  obtain ⟨-, goes, -, -⟩ := evaluate_exact conW
  obtain ⟨r, ev, -, steps, -⟩ := stops 2 2 _ (Nat.le_refl 2) two rfl
  refine ⟨con, two, rfl, ⟨r, _, ev, ?_, ?_, one, ?_⟩, conW, all, ?_⟩
  · have run : t.evaluate (.atMost 2) = .ok ⟨t, [.app i .empty, .empty]⟩ := by cbv
    cases ev.symm.trans run
    rfl
  · intro horizon le
    exact (finished _ r ev).2.2 (.unlimited horizon) (steps ▸ le)
  · exact begins (.atMost 1) (.atMost 2) _ r (by decide) (.outOfFuel one) (.done ev)
  · intro n
    obtain ⟨r, ev, -, steps⟩ := goes n fun k u _ eq stop => by
      cases (all k).symm.trans eq
      cases loop.symm.trans stop
    exact ⟨r, ev, steps⟩

end Term

/-! ## Stuck runs -/

/-- The last term is stuck if the run says so and the walk came to the end. -/
lemma Walk.isStuck_last {n : Nat} {t : Term} {ts : List Term} {done : Bool}
    (walk : Walk n t ts done) :
    (Value.node (Run.mk t ts).term).isStuck = .ok ((Run.mk t ts).stuck && done) := by
  obtain ⟨s, eq, none⟩ := walk.step_last
  have eq : (Value.node (Run.mk t ts).term).step = .ok s := eq
  have vl : (Value.node (Run.mk t ts).term).isValue = (Run.mk t ts).isValue := rfl
  rw [Value.isStuck, Run.stuck, vl, eq]
  cases (Run.mk t ts).isValue with
  | true => rfl
  | false => exact congrArg Except.ok none

namespace Run

variable {r : Run}

/-- A stuck result is handed out as an error. -/
lemma unwrap_of_stuck (stuck : r.stuck = true) : r.unwrap = .error r.term := if_pos stuck

/-- A run whose last term has a step says that it is stuck. -/
lemma stuck_of_step {u : Term} (st : r.term.step = .ok (some u)) : r.stuck = true := by
  have no : r.isValue = false := Term.isValue_eq_false_of_step st
  rw [stuck, no]
  rfl

end Run

namespace Term

/-- What a run says about being stuck is true if and only if it came to its end, and so is what is
said when it is asked for its value. A run that was broken off always says that it is stuck, and its
last term never is. -/
theorem stuck_iff_finished {limit : Limit} {t : Term} {r : Run} (out : HandsOut limit t r) :
    ((Value.node r.term).isStuck = .ok r.stuck ↔ t.evaluate limit = .ok r) ∧
    ((∀ u, r.unwrap = .error u → r.term.step = .ok none) ↔ t.evaluate limit = .ok r) ∧
    (t.evaluate limit ≠ .ok r →
      r.stuck = true ∧ r.unwrap = .error r.term ∧ (Value.node r.term).isStuck = .ok false) := by
  obtain ⟨ts, done, rfl, walk⟩ := walk_of_handsOut out
  have last := walk.isStuck_last
  cases done with
  | true =>
    have ev : t.evaluate limit = .ok ⟨t, ts⟩ := evaluate_eq_ok_iff.2 ⟨ts, rfl, walk⟩
    rw [Bool.and_true] at last
    exact ⟨iff_of_true last ev, iff_of_true (fun _ _ => walk.step_last_of_done) ev,
      fun no => absurd ev no⟩
  | false =>
    obtain ⟨u, st⟩ := walk.step_last_of_more
    have stuck : (Run.mk t ts).stuck = true := Run.stuck_of_step st
    have unwrap := Run.unwrap_of_stuck stuck
    have no : t.evaluate limit ≠ .ok ⟨t, ts⟩ := by
      intro ev
      obtain ⟨_, eq, walk'⟩ := evaluate_eq_ok_iff.1 ev
      cases eq
      cases st.symm.trans walk'.step_last_of_done
    rw [Bool.and_false] at last
    refine ⟨iff_of_false ?_ no, iff_of_false ?_ no, fun _ => ⟨stuck, unwrap, last⟩⟩
    · intro eq
      rw [last, stuck] at eq
      cases eq
    · intro stops
      cases st.symm.trans (stops _ unwrap)

/-- A run that came to its end, at a projection that the record does not have, and the same run
broken off one step before. -/
theorem stuck_iff_finished_missing :
    let t : Term := .proj (.cell "i1" (.proj (.cell "i2" .empty .empty) "i2") .empty) "i2"
    let u : Term := .proj (.cell "i1" .empty .empty) "i2"
    let r : Run := ⟨t, [u]⟩
    let r' : Run := ⟨t, []⟩
    HandsOut (.atMost 1) t r ∧ (Value.node r.term).isStuck = .ok r.stuck ∧ r.stuck = true ∧
      r.unwrap = .error u ∧ u.step = .ok none ∧
      HandsOut (.atMost 0) t r' ∧ t.evaluate (.atMost 0) ≠ .ok r' ∧
      (Value.node r'.term).isStuck = .ok false ∧ r'.stuck = true := by
  intro t u r r'
  have ev : t.evaluate (.atMost 1) = .ok r := rfl
  have ev' : t.evaluate (.atMost 0) = .error (.outOfFuel 0 r') := rfl
  have out : HandsOut (.atMost 1) t r := .done ev
  have out' : HandsOut (.atMost 0) t r' := .outOfFuel ev'
  have broken : t.evaluate (.atMost 0) ≠ .ok r' := by
    rw [ev']
    nofun
  obtain ⟨truth, unwrap, -⟩ := stuck_iff_finished out
  obtain ⟨-, -, untrue⟩ := stuck_iff_finished out'
  obtain ⟨stuck, -, last⟩ := untrue broken
  exact ⟨out, truth.2 ev, rfl, rfl, unwrap.2 ev u rfl, out', broken, last, stuck⟩

/-- A run of no steps that is broken off, at a projection that the record has. It says that it is
stuck and has no value to give, and yet its last term has a step. -/
theorem stuck_broken_off :
    let v : Term := .abs "a" (.base "A") (.var "a")
    let t : Term := .proj (.cell "i1" v .empty) "i1"
    let r : Run := ⟨t, []⟩
    t.concrete ∧ t.evaluate (.atMost 0) = .error (.outOfFuel 0 r) ∧ t.step = .ok (some v) ∧
      r.stuck = true ∧ (Value.node r.term).isStuck = .ok false ∧ r.unwrap = .error t ∧
      (¬∀ (t : Term) (n : Nat) (r : Run), t.concrete → HandsOut (.atMost n) t r →
        (Value.node r.term).isStuck = .ok r.stuck) ∧
      ¬∀ (t : Term) (n : Nat) (r : Run) (u : Term), t.concrete → HandsOut (.atMost n) t r →
        r.unwrap = .error u → r.term.step = .ok none := by
  intro v t r
  have con : t.concrete := rfl
  have ev : t.evaluate (.atMost 0) = .error (.outOfFuel 0 r) := rfl
  have out : HandsOut (.atMost 0) t r := .outOfFuel ev
  have no : (Value.node r.term).isStuck = .ok false := rfl
  have st : t.step = .ok (some v) := rfl
  refine ⟨con, ev, st, rfl, no, rfl, ?_, ?_⟩
  · intro all
    cases no.symm.trans (all t 0 r con out)
  · intro all
    cases st.symm.trans (all t 0 r t con out rfl)

end Term

end RecordLambda
