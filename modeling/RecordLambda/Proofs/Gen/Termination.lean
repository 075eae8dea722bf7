import RecordLambda.Proofs.Gen.Draws
import Mathlib.Logic.Relation

/-!
# The search for a term ends

The search is defined by levels, one upon the other, so that it ends by definition. Here its rules
are written down once more as they call each other: `search` says what a call does if `self` answers
the calls that it makes, at a depth that goes down below zero. Applications and projections ask for
terms of larger types than their own, and introductions go on when there is no depth left; therefore
it is not obvious that the calls come to an end.

A call depends on no calls but those that it makes, `search_congr`, and the levels answer as the
rules say, `search_found`. Every call goes down: from any rule to a certain one, from a positive
depth to a lower one, or else to a smaller type. Since the types that are made up on the way are
only a little larger, there is a bound on the nesting of calls that does not depend on the draws,
`SearchCall.nesting`, and calls nested that deep have the same outcome as the levels, on every
source.
-/

namespace RecordLambda

variable {α β : Type}

/-! ## Trials -/

/-- A computation that draws from a source and may be broken off. -/
abbrev Trial (α : Type) := ExceptT EmptyChoice (StateT Source Option) α

namespace Trial

/-- Runs a trial on a source. There is no outcome if it is broken off. -/
def runOn (x : Trial α) (s : Source) : Option (Except EmptyChoice α × Source) :=
  (ExceptT.run x).run s

/-- Breaks off. -/
def breakOff : Trial α := fun _ => none

/-- The first result that is there. -/
def firstSome : List (Trial (Option α)) → Trial (Option α)
  | [] => return none
  | x :: xs => do
    match ← x with
    | some a => return some a
    | none => firstSome xs

end Trial

namespace Gen

/-- A computation as a trial, which is never broken off. -/
def trial (g : Gen α) : Trial α := fun s => some (g.runOn s)

/-- A computation has an outcome as a trial, which is its own. -/
lemma runOn_trial (g : Gen α) (s : Source) : g.trial.runOn s = some (g.runOn s) := rfl

/-- What follows a computation in a trial runs on the draws that are left. -/
lemma runOn_trial_bind (g : Gen α) (f : α → Trial β) (s : Source) :
    (g.trial >>= f).runOn s =
      match g.runOn s with
      | (.ok a, s') => (f a).runOn s'
      | (.error e, s') => some (.error e, s') := by
  rw [Trial.runOn, ExceptT.run_bind, StateT.run_bind]
  have eq : (ExceptT.run g.trial).run s = some (g.runOn s) := runOn_trial g s
  rw [eq]
  rcases g.runOn s with ⟨e | a, s'⟩ <;> rfl

/-- Two computations in a row are two trials in a row. -/
lemma trial_bind (g : Gen α) (f : α → Gen β) :
    (g >>= f).trial = g.trial >>= fun a => (f a).trial := by
  funext s
  refine Eq.trans ?_ (runOn_trial_bind g _ s).symm
  rw [trial, runOn_bind]
  rcases g.runOn s with ⟨e | a, s'⟩ <;> rfl

/-- What follows matters only for what the computation can give. -/
lemma trial_bind_congr {g : Gen α} {f f' : α → Trial β} (same : ∀ a, g.Gives a → f a = f' a) :
    g.trial >>= f = g.trial >>= f' := by
  funext s
  refine (runOn_trial_bind g f s).trans (Eq.trans ?_ (runOn_trial_bind g f' s).symm)
  rcases eq : g.runOn s with ⟨e | a, s'⟩
  · rfl
  · dsimp only
    rw [same a ⟨s, s', eq⟩]

/-- The first result among computations is that among their trials. -/
lemma trial_firstSome (gs : List (Gen (Option α))) :
    (firstSome gs).trial = Trial.firstSome (gs.map trial) := by
  induction gs with
  | nil => rfl
  | cons g gs ih =>
    refine (trial_bind g _).trans (bind_congr fun o => ?_)
    cases o with
    | none => exact ih
    | some a => rfl

/-- Exchanging the images of the items is exchanging the items. -/
lemma shuffleFrom_map (f : α → β) (i : Nat) (xs : Array α) :
    shuffleFrom i (xs.map f) = (shuffleFrom i xs >>= fun ys => pure (ys.map f)) := by
  induction i generalizing xs with
  | zero => rfl
  | succ i ih =>
    rw [shuffleFrom, shuffleFrom, bind_assoc]
    refine bind_congr fun j => ?_
    have swap : (xs.map f).swapIfInBounds (i + 1) j = (xs.swapIfInBounds (i + 1) j).map f := by
      grind
    rw [swap, ih]

/-- Shuffling the images of the items is shuffling the items. -/
lemma shuffle_map (f : α → β) (xs : List α) :
    shuffle (xs.map f) = (shuffle xs >>= fun ys => pure (ys.map f)) := by
  unfold shuffle
  rw [List.length_map, ← List.map_toArray, shuffleFrom_map, bind_assoc, bind_assoc]
  refine bind_congr fun ys => ?_
  rw [pure_bind, pure_bind, Array.toList_map]

end Gen

/-! ## Calls -/

/-- What a search may look for: a term by any rule, or by a certain one. -/
inductive Rule where
  | any
  | var
  | intro
  | app
  | proj
deriving DecidableEq

/-- A call of the search: a term of the type in the context is asked for. The depth may be below
zero. -/
structure SearchCall where
  rule : Rule
  ty : Ty
  env : Env
  depth : Int

/-- The rules that are tried for a type. There are eliminations only while there is depth left. -/
def rulesFor (T : Ty) (Γ : Env) (d : Int) : List Rule :=
  .intro :: ((if (Env.varsOf Γ T).isEmpty then [] else [.var]) ++
    if 0 < d then [.app, .proj] else [])

namespace Vocabulary

open Gen

variable {voc : Vocabulary}

/-- The search by its rules, with `self` for the calls that it makes. -/
def search (voc : Vocabulary) (self : SearchCall → Trial (Option Term)) :
    SearchCall → Trial (Option Term)
  | ⟨.any, T, Γ, d⟩ => do
    let order ← (shuffle (rulesFor T Γ d)).trial
    Trial.firstSome (order.map fun r => self ⟨r, T, Γ, d⟩)
  | ⟨.var, T, Γ, _⟩ => (varRule T Γ).trial
  | ⟨.intro, .arrow A B, Γ, d⟩ => do
    let x ← (pick voc.names).trial
    let b ← self ⟨.any, B, Γ.insert x A, d - 1⟩
    return b.map (.abs x A ·)
  | ⟨.intro, .empty, _, _⟩ => return some .empty
  | ⟨.intro, .cell l A R, Γ, d⟩ => do
    let v ← self ⟨.any, A, Γ, d - 1⟩
    let r ← self ⟨.intro, R, Γ, d - 1⟩
    return cellOf l v r
  | ⟨.intro, _, _, _⟩ => return none
  | ⟨.app, T, Γ, d⟩ => do
    let U ← (voc.wfTy (min (d - 1) 1).toNat).trial
    if !U.inhabited Γ then return none
    let f ← self ⟨.any, .arrow U T, Γ, d - 1⟩
    let a ← self ⟨.any, U, Γ, d - 1⟩
    match f, a with
    | some f, some a => return some (.app f a)
    | _, _ => return none
  | ⟨.proj, T, Γ, d⟩ => do
    let (l, before, behind) ← voc.fieldsAround.trial
    let r ← self ⟨.any, Ty.ofFields (before ++ (l, T) :: behind) .empty, Γ, d - 1⟩
    return r.map (.proj · l)

/-- The search with calls nested at most so deep. -/
def searchWithin (voc : Vocabulary) : Nat → SearchCall → Trial (Option Term)
  | 0, _ => Trial.breakOff
  | n + 1, c => voc.search (voc.searchWithin n) c

/-- What is found for a call at the level of its depth. -/
def found (voc : Vocabulary) : SearchCall → Gen (Option Term)
  | ⟨.any, T, Γ, d⟩ => (voc.level d.toNat).term T Γ
  | ⟨.var, T, Γ, _⟩ => varRule T Γ
  | ⟨.intro, T, Γ, d⟩ => (voc.level d.toNat).intro T Γ
  | ⟨.app, T, Γ, d⟩ => voc.appRule (d - 1).toNat (voc.level (d - 1).toNat) T Γ
  | ⟨.proj, T, Γ, d⟩ => voc.projRule (voc.level (d - 1).toNat) T Γ

end Vocabulary

namespace SearchCall

/-- The calls that a call makes itself. -/
inductive Makes (voc : Vocabulary) : SearchCall → SearchCall → Prop where
  | rule {T Γ d r} :
    r ∈ rulesFor T Γ d →
    Makes voc ⟨.any, T, Γ, d⟩ ⟨r, T, Γ, d⟩
  | body {A B Γ d x} :
    x ∈ voc.names →
    Makes voc ⟨.intro, .arrow A B, Γ, d⟩ ⟨.any, B, Γ.insert x A, d - 1⟩
  | value {l A R Γ d} :
    Makes voc ⟨.intro, .cell l A R, Γ, d⟩ ⟨.any, A, Γ, d - 1⟩
  | rest {l A R Γ d} :
    Makes voc ⟨.intro, .cell l A R, Γ, d⟩ ⟨.intro, R, Γ, d - 1⟩
  | fn {T Γ d U} :
    (voc.wfTy (min (d - 1) 1).toNat).Gives U →
    U.inhabited Γ →
    Makes voc ⟨.app, T, Γ, d⟩ ⟨.any, .arrow U T, Γ, d - 1⟩
  | arg {T Γ d U} :
    (voc.wfTy (min (d - 1) 1).toNat).Gives U →
    U.inhabited Γ →
    Makes voc ⟨.app, T, Γ, d⟩ ⟨.any, U, Γ, d - 1⟩
  | record {T Γ d l before behind} :
    voc.fieldsAround.Gives (l, before, behind) →
    Makes voc ⟨.proj, T, Γ, d⟩ ⟨.any, Ty.ofFields (before ++ (l, T) :: behind) .empty, Γ, d - 1⟩

end SearchCall

namespace Vocabulary

open Gen

variable {voc : Vocabulary} {c : SearchCall}

/-- The calls that a call makes are all that its outcome depends on. -/
lemma search_congr {self self' : SearchCall → Trial (Option Term)}
    (same : ∀ c', c.Makes voc c' → self c' = self' c') :
    voc.search self c = voc.search self' c := by
  obtain ⟨r, T, Γ, d⟩ := c
  cases r with
  | any =>
    refine trial_bind_congr fun order gives => ?_
    have perm := (ensures_shuffle _).gives gives
    congr 1
    exact List.map_congr_left fun r mem => same _ (.rule (perm.mem_iff.1 mem))
  | var => rfl
  | intro =>
    cases T with
    | arrow A B =>
      refine trial_bind_congr fun x gives => ?_
      rw [same _ (.body ((ensures_pick _).gives gives))]
    | cell l A R =>
      show (self _ >>= fun v => self _ >>= _) = (self' _ >>= fun v => self' _ >>= _)
      rw [same _ .value, same _ .rest]
    | _ => rfl
  | app =>
    refine trial_bind_congr fun U gives => ?_
    split
    · rfl
    · rename_i inh
      have inh : U.inhabited Γ := by simpa using inh
      rw [same _ (.fn gives inh), same _ (.arg gives inh)]
  | proj =>
    refine trial_bind_congr fun r gives => ?_
    obtain ⟨l, before, behind⟩ := r
    dsimp only
    rw [same _ (.record gives)]

/-- Introduction is the same rule at all depths. -/
lemma level_intro_eq (d : Int) (T : Ty) (Γ : Env) :
    (voc.level d.toNat).intro T Γ = voc.introRule (voc.level (d - 1).toNat) T Γ := by
  by_cases pos : 0 < d
  · rw [show d.toNat = (d - 1).toNat + 1 by omega]
    rfl
  · -- there is no level below the lowest one, which goes on by itself
    rw [show d.toNat = 0 by omega, show (d - 1).toNat = 0 by omega]
    cases T <;> rfl

/-- At all depths the rules are shuffled and tried. -/
lemma level_term_eq (d : Int) (T : Ty) (Γ : Env) :
    (voc.level d.toNat).term T Γ =
      (shuffle (rulesFor T Γ d) >>= fun order =>
        firstSome (order.map fun r => voc.found ⟨r, T, Γ, d⟩)) := by
  have rules : (rulesFor T Γ d).map (fun r => voc.found ⟨r, T, Γ, d⟩) =
      voc.found ⟨.intro, T, Γ, d⟩ :: ((if (Env.varsOf Γ T).isEmpty then [] else [varRule T Γ]) ++
        if 0 < d then [voc.found ⟨.app, T, Γ, d⟩, voc.found ⟨.proj, T, Γ, d⟩] else []) := by
    rw [rulesFor, List.map_cons, List.map_append]
    congr 2 <;> split <;> rfl
  have tried : (voc.level d.toNat).term T Γ =
      (shuffle ((rulesFor T Γ d).map fun r => voc.found ⟨r, T, Γ, d⟩) >>= firstSome) := by
    rw [rules, found]
    by_cases pos : 0 < d
    · rw [if_pos pos, show d.toNat = (d - 1).toNat + 1 by omega]
      rfl
    · rw [if_neg pos, show d.toNat = 0 by omega]
      rfl
  rw [tried, shuffle_map, bind_assoc]
  exact bind_congr fun order => pure_bind _ _

/-- What is found obeys the rules of the search. -/
lemma search_found (c : SearchCall) :
    voc.search (fun c => (voc.found c).trial) c = (voc.found c).trial := by
  obtain ⟨r, T, Γ, d⟩ := c
  cases r with
  | any =>
    rw [found, level_term_eq, trial_bind]
    refine bind_congr fun order => ?_
    rw [trial_firstSome, List.map_map]
    rfl
  | var => rfl
  | intro =>
    rw [found, level_intro_eq]
    cases T with
    | arrow A B =>
      rw [introRule, trial_bind]
      refine bind_congr fun x => ?_
      rw [trial_bind]
      rfl
    | cell l A R =>
      rw [introRule, trial_bind]
      refine bind_congr fun v => ?_
      rw [trial_bind]
      rfl
    | _ => rfl
  | app =>
    have eq : (min (d - 1) 1).toNat = min (d - 1).toNat 1 := by omega
    rw [found, appRule, trial_bind, ← eq]
    refine bind_congr fun U => ?_
    split
    · rfl
    · rw [trial_bind]
      refine bind_congr fun f => ?_
      rw [trial_bind]
      refine bind_congr fun a => ?_
      cases f <;> cases a <;> rfl
  | proj =>
    rw [found, projRule, trial_bind]
    refine bind_congr fun r => ?_
    obtain ⟨l, before, behind⟩ := r
    dsimp only
    rw [trial_bind]
    rfl

end Vocabulary

/-! ## The order of the calls -/

/-- Only certain rules are tried, and eliminations only while there is depth left. -/
lemma mem_rulesFor {r : Rule} {T : Ty} {Γ : Env} {d : Int} (mem : r ∈ rulesFor T Γ d) :
    r ≠ .any ∧ (r = .app ∨ r = .proj → 0 < d) := by
  unfold rulesFor at mem
  grind

namespace SearchCall

variable {voc : Vocabulary} {c c' : SearchCall}

/-- How deep the calls of a call may be nested, itself included. For one unit of depth there are two
calls, and they add at most eight nodes to the type; for one node there are two calls again. -/
def nesting : SearchCall → Nat
  | ⟨.any, T, _, d⟩ => 18 * d.toNat + 2 * T.size
  | ⟨.var, T, _, d⟩ | ⟨.intro, T, _, d⟩ => 18 * d.toNat + 2 * T.size - 1
  | ⟨.app, T, _, d⟩ | ⟨.proj, T, _, d⟩ => 18 * (d - 1).toNat + 2 * T.size + 17

/-- A call is nested once at least, by itself. -/
lemma one_le_nesting (c : SearchCall) : 1 ≤ c.nesting := by
  obtain ⟨r, T, Γ, d⟩ := c
  have pos := T.one_le_size
  cases r <;> simp only [nesting] <;> omega

/-- The calls that a call makes may be nested less deep. -/
lemma Makes.nesting_lt (mk : c.Makes voc c') : c'.nesting < c.nesting := by
  cases mk with
  | @rule T Γ d r mem =>
    obtain ⟨ne, deep⟩ := mem_rulesFor mem
    have pos := T.one_le_size
    cases r with
    | any => exact absurd rfl ne
    | var | intro =>
      simp only [nesting]
      omega
    | app =>
      have left := deep (.inl rfl)
      simp only [nesting]
      omega
    | proj =>
      have left := deep (.inr rfl)
      simp only [nesting]
      omega
  | body _ | value | rest =>
    simp only [nesting, Ty.size]
    omega
  | fn gives _ | arg gives _ =>
    have le := (Vocabulary.size_argument (by omega)).gives gives
    simp only [nesting, Ty.size]
    omega
  | @record T _ _ _ _ _ gives =>
    have le := Vocabulary.size_around gives T
    simp only [nesting]
    omega

/-- The order in which the calls go down. From any rule to a certain one nothing else changes. From
a certain rule a positive depth is lowered; a depth that is not positive stays so, and the type gets
smaller. -/
inductive Lower : SearchCall → SearchCall → Prop where
  | rule {r T Γ d} :
    r ≠ .any →
    Lower ⟨r, T, Γ, d⟩ ⟨.any, T, Γ, d⟩
  | depth {r r' T T' Γ Γ' d} :
    r ≠ .any →
    0 < d →
    Lower ⟨r', T', Γ', d - 1⟩ ⟨r, T, Γ, d⟩
  | size {r r' T T' Γ Γ' d} :
    r ≠ .any →
    d ≤ 0 →
    T'.size < T.size →
    Lower ⟨r', T', Γ', d - 1⟩ ⟨r, T, Γ, d⟩

/-- The depth cut at zero, and then the type and whether any rule will do. -/
def rank (c : SearchCall) : Nat × Nat :=
  (c.depth.toNat, 2 * c.ty.size + if c.rule = .any then 1 else 0)

/-- To go down lowers the rank. -/
lemma Lower.rank_lt (low : Lower c' c) : Prod.Lex (· < ·) (· < ·) c'.rank c.rank := by
  cases low with
  | rule ne =>
    apply Prod.Lex.right
    simp [ne]
  | @depth _ _ _ _ _ _ d _ pos =>
    apply Prod.Lex.left
    show (d - 1).toNat < d.toNat
    omega
  | @size _ _ _ _ _ _ d ne le lt =>
    have eq : (d - 1).toNat = d.toNat := by omega
    rw [rank, rank, eq, if_neg ne]
    apply Prod.Lex.right
    dsimp only
    split <;> omega

/-- There is no way down without end. -/
lemma wellFounded_lower : WellFounded Lower :=
  Subrelation.wf Lower.rank_lt (InvImage.wf rank (Prod.lex Nat.lt_wfRel Nat.lt_wfRel).wf)

/-- Eliminations are called for only while there is depth left. -/
def Deep (c : SearchCall) : Prop := c.rule = .app ∨ c.rule = .proj → 0 < c.depth

/-- A call from a certain rule at a smaller type and one depth less goes down. -/
lemma lower_of_size_lt {r r' : Rule} {T T' : Ty} {Γ Γ' : Env} {d : Int} (ne : r ≠ .any)
    (lt : T'.size < T.size) : Lower ⟨r', T', Γ', d - 1⟩ ⟨r, T, Γ, d⟩ := by
  by_cases pos : 0 < d
  · exact .depth ne pos
  · exact .size ne (Int.not_lt.1 pos) lt

/-- Every call goes down. -/
lemma Makes.lower (mk : c.Makes voc c') (deep : c.Deep) : Lower c' c ∧ c'.Deep := by
  cases mk with
  | rule mem =>
    obtain ⟨ne, deep⟩ := mem_rulesFor mem
    exact ⟨.rule ne, deep⟩
  | body _ | value | rest =>
    refine ⟨lower_of_size_lt (by decide) ?_, by simp [Deep]⟩
    simp only [Ty.size]
    omega
  | fn _ _ | arg _ _ => exact ⟨.depth (by decide) (deep (.inl rfl)), by simp [Deep]⟩
  | record _ => exact ⟨.depth (by decide) (deep (.inr rfl)), by simp [Deep]⟩

/-- Along the calls eliminations are called for only while there is depth left. -/
lemma deep_of_calls (calls : Relation.ReflTransGen (Makes voc) c c') (deep : c.Deep) :
    c'.Deep := by
  induction calls with
  | refl => exact deep
  | tail _ mk ih => exact (mk.lower ih).2

end SearchCall

namespace Vocabulary

open Gen

variable {voc : Vocabulary} {c : SearchCall}

/-- Nested as deep as the call may be, the search is never broken off and finds what its level
finds. -/
lemma searchWithin_eq {n : Nat} (le : c.nesting ≤ n) :
    voc.searchWithin n c = (voc.found c).trial := by
  induction n generalizing c with
  | zero =>
    have pos := c.one_le_nesting
    omega
  | succ n ih =>
    -- the calls that are made are nested less deep, so they are answered as the levels do
    rw [searchWithin, ← search_found]
    apply search_congr
    intro c' mk
    have lt := mk.nesting_lt
    exact ih (by omega)

/-- The search for a term ends, whatever is drawn and at every depth. Its calls, nested as deep as
the depth and the type say, have an outcome on every source: a term, nothing, or the failure of an
empty choice. Only so many numbers are drawn as the depth and the type say, so it ends on every
sequence of numbers. A call depends on no calls but those that it makes. If it is for any rule, they
are for the rules at the same type and depth. If not, they lower a positive depth, or the depth
stays not positive and the type gets smaller. So there are no calls without end. -/
theorem termOf_terminates (voc : Vocabulary) (T : Ty) (Γ : Env) (d : Option Int) :
    (∀ n, 18 * voc.depth d + 2 * T.size ≤ n → ∀ s,
      (voc.searchWithin n ⟨.any, T, Γ, d.getD voc.maxDepth⟩).runOn s =
        some ((voc.termOf T Γ d).runOn s)) ∧
    (voc.termOf T Γ d).DecidedBy (drawBound (voc.depth d) T.size) ∧
    (∀ (self self' : SearchCall → Trial (Option Term)) (c : SearchCall),
      (∀ c', c.Makes voc c' → self c' = self' c') → voc.search self c = voc.search self' c) ∧
    (∀ c c', Relation.ReflTransGen (SearchCall.Makes voc) ⟨.any, T, Γ, d.getD voc.maxDepth⟩ c →
      c.Makes voc c' → SearchCall.Lower c' c) ∧
    WellFounded SearchCall.Lower := by
  refine ⟨?_, (bounded_level _).term (Nat.le_refl _), ?_, ?_, SearchCall.wellFounded_lower⟩
  · intro n le s
    rw [searchWithin_eq le]
    exact runOn_trial _ s
  · intro self self' c same
    exact search_congr same
  · intro c c' calls mk
    have deep := SearchCall.deep_of_calls calls (by simp [SearchCall.Deep])
    exact (mk.lower deep).1

/-- A term found by an application, whose function is searched for at depth zero and the body of the
function below it; and a choice from no names. -/
theorem termOf_terminates_below_zero :
    let A : Ty := .base "A"
    let F : Ty := .arrow .empty A
    let Γ : Env := OrderedMap.ofList [("y", A)]
    let s : Source := .ofSeed [4, 9, 7, 2000000000, 0, 1, 0] 0
    let t : Term := .app (.abs "a" .empty (.var "y")) .empty
    let nameless : Vocabulary := ⟨["A"], ["l"], [], 3⟩
    let intro : SearchCall := ⟨.intro, F, Γ, 0⟩
    let body : SearchCall := ⟨.any, A, Γ.insert "a" .empty, -1⟩
    18 * small.depth (some 1) + 2 * A.size ≤ 20 ∧
      (small.searchWithin 20 ⟨.any, A, Γ, 1⟩).runOn s = some (.ok (some t), ⟨[], 0, 7⟩) ∧
      18 * nameless.depth (some (-2)) + 2 * F.size ≤ 6 ∧
      (nameless.searchWithin 6 ⟨.any, F, Γ, -2⟩).runOn s = some (.error ⟨⟩, s) ∧
      small.search (fun _ => Trial.breakOff) intro =
        small.search (fun c => if c.rule = .any then Trial.breakOff else return none) intro ∧
      Relation.ReflTransGen (SearchCall.Makes small) ⟨.any, A, Γ, 1⟩ intro ∧
      intro.Makes small body ∧ SearchCall.Lower body intro := by
  intro A F Γ s t nameless intro body
  have run : (small.termOf A Γ (some 1)).runOn s = (.ok (some t), ⟨[], 0, 7⟩) := by decide +kernel
  have fails : (nameless.termOf F Γ (some (-2))).runOn s = (.error ⟨⟩, s) := by rfl
  have calls : Relation.ReflTransGen (SearchCall.Makes small) ⟨.any, A, Γ, 1⟩ intro := by
    have lost : (small.wfTy 0).Gives .empty := ⟨.ofSeed [2000000000] 0, _, rfl⟩
    refine .tail (.tail (.single (.rule ?_)) (.fn lost rfl)) (.rule ?_)
    · decide
    · decide
  have made : intro.Makes small body := .body (by decide)
  have onlyBody : ∀ c', intro.Makes small c' → c'.rule = .any := by
    intro c' (mk : SearchCall.Makes small ⟨.intro, .arrow .empty A, Γ, 0⟩ c')
    cases mk
    rfl
  obtain ⟨ends, _, depends, lower, _⟩ := termOf_terminates small A Γ (some 1)
  have found := ends 20 (by decide) s
  have same := depends (fun _ => Trial.breakOff)
    (fun c => if c.rule = .any then Trial.breakOff else return none) intro
    (fun c' mk => (if_pos (onlyBody c' mk)).symm)
  have failed := (termOf_terminates nameless F Γ (some (-2))).1 6 (by decide) s
  rw [run] at found
  rw [fails] at failed
  exact ⟨by decide, found, by decide, failed, same, calls, made, lower _ _ calls made⟩

end Vocabulary

end RecordLambda
