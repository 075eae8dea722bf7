import RecordLambda.Proofs.Gen.Ty
import Mathlib.Algebra.BigOperators.Group.List.Basic
import Mathlib.Algebra.Order.Ring.Nat
import Mathlib.Data.List.Perm.Basic

/-!
# The number of draws

A computation that is decided by the first `n` numbers of its source draws no more than these, and
what stands behind them makes no difference. So it comes to the same end on every sequence of
numbers that begins with them, be it one that goes on for ever. There is again one rule for each way
in which computations are put together.

For the search for a term the bound depends on the depth and on the size of the type only. Whatever
is drawn, the types that are made up on the way are small: an argument has at most seven nodes, and
the record type around a field at most six more than the field.
-/

namespace RecordLambda

namespace Gen

variable {α β : Type} {g : Gen α} {m n : Nat}

/-- The computation has the result for some source. -/
def Gives (g : Gen α) (a : α) : Prop := ∃ s s', g.runOn s = (.ok a, s')

/-- What a computation ensures holds of whatever it gives. -/
lemma Ensures.gives {p : α → Prop} {a : α} (all : g.Ensures p) (gives : g.Gives a) : p a := by
  obtain ⟨s, s', run⟩ := gives
  exact all s a s' run

/-- Whatever the first `n` numbers of a source are, they decide the outcome and how many of them are
drawn. What stands behind them is not looked at. -/
def DecidedBy (g : Gen α) (n : Nat) : Prop :=
  ∀ ns : List Nat, n ≤ ns.length → ∃ o, ∃ k ≤ n, ∀ rest state used,
    g.runOn ⟨ns ++ rest, state, used⟩ = (o, ⟨ns.drop k ++ rest, state, used + k⟩)

namespace DecidedBy

/-- More numbers decide it too. -/
lemma mono (dec : g.DecidedBy m) (le : m ≤ n) : g.DecidedBy n := by
  intro ns len
  obtain ⟨o, k, leK, run⟩ := dec ns (Nat.le_trans le len)
  exact ⟨o, k, Nat.le_trans leK le, run⟩

lemma pure {a : α} : (Pure.pure a : Gen α).DecidedBy n :=
  fun _ _ => ⟨.ok a, 0, Nat.zero_le n, fun _ _ _ => rfl⟩

lemma throw {e : EmptyChoice} : (MonadExcept.throw e : Gen α).DecidedBy n :=
  fun _ _ => ⟨.error e, 0, Nat.zero_le n, fun _ _ _ => rfl⟩

/-- The numbers for both parts decide the whole, and the second part has to be decided only behind
what the first can give. -/
lemma bind {f : α → Gen β} (first : g.DecidedBy m) (next : ∀ a, g.Gives a → (f a).DecidedBy n) :
    (g >>= f).DecidedBy (m + n) := by
  intro ns len
  obtain ⟨o, k, le, run⟩ := first ns (by omega)
  cases o with
  | error e =>
    refine ⟨.error e, k, by omega, ?_⟩
    intro rest state used
    rw [runOn_bind, run]
  | ok a =>
    have gives : g.Gives a := ⟨_, _, run [] 0 0⟩
    -- what the first computation has left is enough for the second one
    obtain ⟨o, k', le', run'⟩ := next a gives (ns.drop k) (by rw [List.length_drop]; omega)
    refine ⟨o, k + k', by omega, ?_⟩
    intro rest state used
    rw [runOn_bind, run]
    exact (run' rest state (used + k)).trans (by rw [List.drop_drop, Nat.add_assoc])

/-- Nothing is drawn for what is done with a result. -/
lemma bind_pure {f : α → β} (first : g.DecidedBy m) :
    (g >>= fun a => Pure.pure (f a)).DecidedBy m :=
  first.bind (n := 0) fun _ _ => pure

end DecidedBy

/-- A draw is one draw. -/
lemma decided_raw : raw.DecidedBy 1 := by
  intro ns len
  cases ns with
  | nil => cases len
  | cons n ns => exact ⟨.ok n, 1, Nat.le_refl 1, fun _ _ _ => rfl⟩

lemma decided_upTo (n : Nat) : (upTo n).DecidedBy 1 :=
  decided_raw.bind_pure

lemma decided_pick (xs : List α) : (pick xs).DecidedBy 1 := by
  cases xs with
  | nil => exact .throw
  | cons x rest => exact (decided_upTo _).bind_pure

lemma decided_coin : coin.DecidedBy 1 := decided_raw.bind_pure

/-- As many draws as asked for, times those of each. -/
lemma decided_times (each : g.DecidedBy m) (n : Nat) : (times n g).DecidedBy (n * m) := by
  induction n with
  | zero => exact .pure
  | succ n ih =>
    refine (each.bind fun a _ => ih.bind_pure).mono ?_
    rw [Nat.succ_mul]
    omega

/-- One draw for each item that is exchanged. -/
lemma decided_shuffleFrom (i : Nat) (xs : Array α) : (shuffleFrom i xs).DecidedBy i := by
  induction i generalizing xs with
  | zero => exact .pure
  | succ i ih => exact ((decided_upTo _).bind fun j _ => ih _).mono (by omega)

/-- One draw less than there are items. -/
lemma decided_shuffle (xs : List α) : (shuffle xs).DecidedBy (xs.length - 1) :=
  (decided_shuffleFrom _ _).bind_pure

/-- At most all the draws of the computations tried. -/
lemma decided_firstSome {gs : List (Gen (Option α))} {ns : List Nat}
    (each : List.Forall₂ DecidedBy gs ns) : (firstSome gs).DecidedBy ns.sum := by
  induction each with
  | nil => exact .pure
  | cons first _ ih =>
    rw [List.sum_cons]
    refine first.bind fun o _ => ?_
    cases o with
    | none => exact ih
    | some a => exact .pure

end Gen

/-! ## Types -/

namespace Ty

lemma one_le_size (T : Ty) : 1 ≤ T.size := by
  cases T <;> simp only [size] <;> omega

/-- The size of a record type by the number of its fields and the size of the largest. -/
lemma size_ofFields_le {fs : List (String × Ty)} {m : Nat} (all : ∀ f ∈ fs, f.2.size ≤ m)
    (R : Ty) : (ofFields fs R).size ≤ fs.length * (m + 1) + R.size := by
  induction fs with
  | nil => exact Nat.le_add_left _ _
  | cons f fs ih =>
    obtain ⟨first, rest⟩ := List.forall_mem_cons.1 all
    have le := ih rest
    have eq : (ofFields (f :: fs) R).size = f.2.size + (ofFields fs R).size + 1 := rfl
    rw [eq, List.length_cons, Nat.succ_mul]
    omega

end Ty

namespace Vocabulary

open Gen

variable {voc : Vocabulary}

/-- The most nodes of a random well-formed type of a depth. -/
def wfSize : Nat → Nat
  | 0 => 1
  | d + 1 => 3 * wfSize d + 4

/-- The most draws for a random well-formed type of a depth. -/
def wfDraws : Nat → Nat
  | 0 => 2
  | d + 1 => 3 * wfDraws d + 5

lemma decided_baseTy : voc.baseTy.DecidedBy 1 := (decided_pick _).bind_pure

/-- A label is one more draw. -/
lemma decided_labelled {α : Type} {g : Gen α} {m : Nat} (each : g.DecidedBy m) :
    (voc.labelled g).DecidedBy (1 + m) :=
  (decided_pick _).bind fun _ _ => each.bind_pure

/-- The size of a type that is made up, by its depth. -/
lemma size_wfTy (d : Nat) : (voc.wfTy d).Ensures (·.size ≤ wfSize d) := by
  refine ensures_wfTy_of (p := fun d T => T.size ≤ wfSize d) ?_ (Nat.le_refl 1) ?_ ?_ d
  · intro d b
    cases d <;> simp only [Ty.size, wfSize] <;> omega
  · intro d A B leA leB
    rw [Ty.size, wfSize]
    omega
  · intro d fs len all
    refine Nat.le_trans (Ty.size_ofFields_le all .empty) ?_
    have most := Nat.mul_le_mul_right (wfSize d + 1) len
    rw [wfSize, Ty.size]
    omega

/-- The draws for a type that is made up, by its depth. -/
lemma decided_wfTy (d : Nat) : (voc.wfTy d).DecidedBy (wfDraws d) := by
  induction d with
  | zero =>
    refine decided_coin.bind (n := 1) fun won _ => ?_
    cases won with
    | true => exact decided_baseTy
    | false => exact .pure
  | succ d ih =>
    refine ((decided_pick _).bind (n := 3 * wfDraws d + 4) fun g gives => ?_).mono ?_
    · have mem := (ensures_pick _).gives gives
      simp only [List.mem_cons, List.not_mem_nil, or_false] at mem
      rcases mem with rfl | rfl | rfl
      · exact decided_baseTy.mono (by omega)
      · exact (ih.bind fun A _ => ih.bind_pure).mono (by omega)
      · refine ((decided_upTo 3).bind (n := 3 * (1 + wfDraws d)) fun n gives => ?_).mono (by omega)
        have le := (ensures_upTo 3).gives gives
        exact (decided_times (decided_labelled ih) n).bind_pure.mono (Nat.mul_le_mul_right _ le)
    · rw [wfDraws]
      omega

/-- The types of arguments are small. -/
lemma size_argument {k : Nat} (le : k ≤ 1) : (voc.wfTy k).Ensures (·.size ≤ 7) := by
  refine (size_wfTy k).mono fun U leU => Nat.le_trans leU ?_
  rcases Nat.le_one_iff_eq_zero_or_eq_one.1 le with rfl | rfl <;> decide

/-- The type of an argument takes at most eleven draws. -/
lemma decided_argument {k : Nat} (le : k ≤ 1) : (voc.wfTy k).DecidedBy 11 := by
  refine (decided_wfTy k).mono ?_
  rcases Nat.le_one_iff_eq_zero_or_eq_one.1 le with rfl | rfl <;> decide

/-- Some fields of ground types take at most four draws. -/
lemma decided_fewFields (labels : List String) : (fewFields labels voc).DecidedBy 4 := by
  refine (decided_upTo 1).bind (n := 3) fun n gives => ?_
  have le := (ensures_upTo 1).gives gives
  refine (decided_times ?_ n).mono (Nat.mul_le_mul_right 3 le)
  exact (decided_pick labels).bind fun l _ => (decided_wfTy 0).bind_pure

/-- The record type around a field is not much larger than the field. -/
lemma size_around {l : String} {before behind : List (String × Ty)}
    (gives : voc.fieldsAround.Gives (l, before, behind)) (T : Ty) :
    (Ty.ofFields (before ++ (l, T) :: behind) .empty).size ≤ T.size + 6 := by
  obtain ⟨⟨len, all⟩, len', all'⟩ := (ensures_fieldsAround_of (size_wfTy 0)).gives gives
  have eq : Ty.ofFields (before ++ (l, T) :: behind) .empty =
      Ty.ofFields before (.cell l T (Ty.ofFields behind .empty)) := List.foldr_append
  have leBehind := Ty.size_ofFields_le all' .empty
  have leBefore := Ty.size_ofFields_le (fun f mem => (all f mem).2)
    (.cell l T (Ty.ofFields behind .empty))
  simp only [Ty.size, wfSize] at leBefore leBehind len len'
  rw [eq]
  omega

/-- The fields around a field take at most nine draws. -/
lemma decided_fieldsAround : voc.fieldsAround.DecidedBy 9 := by
  refine (decided_pick _).bind (n := 8) fun l _ => ?_
  dsimp only
  split
  · exact ((decided_fewFields _).bind_pure).mono (by omega)
  · exact (decided_fewFields _).bind fun before _ => (decided_fewFields _).bind_pure

end Vocabulary

/-! ## Terms -/

open Gen

variable {Γ : Env} {T : Ty} {voc : Vocabulary} {below : Level} {d m n : Nat}

/-- A variable is at most one draw. -/
lemma decided_varRule : (varRule T Γ).DecidedBy 1 := by
  unfold varRule
  split
  · exact .pure
  · exact (decided_pick _).bind_pure

/-- The rules add up: besides their own draws there are those for the order and for a variable. -/
lemma decided_tryRules {intro : Gen (Option Term)} {more : List (Gen (Option Term))}
    {ns : List Nat} (int : intro.DecidedBy m) (each : List.Forall₂ DecidedBy more ns) :
    (tryRules T Γ intro more).DecidedBy (m + ns.sum + ns.length + 2) := by
  have vars : ∃ vs : List Nat, vs.length ≤ 1 ∧ vs.sum ≤ 1 ∧ List.Forall₂ DecidedBy
      (if (Env.varsOf Γ T).isEmpty then [] else [varRule T Γ]) vs := by
    split
    · exact ⟨[], Nat.zero_le 1, Nat.zero_le 1, .nil⟩
    · exact ⟨[1], Nat.le_refl 1, Nat.le_refl 1, .cons decided_varRule .nil⟩
  obtain ⟨vs, lenV, sumV, vars⟩ := vars
  have rules := List.Forall₂.cons int (List.rel_append vars each)
  refine ((decided_shuffle _).bind (n := m + (vs.sum + ns.sum)) fun order gives => ?_).mono ?_
  · -- whatever the order is, the sum is the same
    obtain ⟨ns', each', perm⟩ := List.perm_comp_forall₂ ((ensures_shuffle _).gives gives) rules
    have sum := perm.sum_eq
    rw [List.sum_cons, List.sum_append] at sum
    rw [← sum]
    exact decided_firstSome each'
  · rw [rules.length_eq, List.length_cons, List.length_append]
    omega

/-- The most draws for a term of a type of so many nodes, at a depth. -/
def drawBound : Nat → Nat → Nat
  | 0, n => 3 * n + 2
  | d + 1, n => 5 * drawBound d (n + 8) + 25

/-- The bound for a depth is one for the rules of a level. -/
structure Level.Bounded (lev : Level) (d : Nat) : Prop where
  intro : ∀ {T Γ n}, T.size ≤ n → (lev.intro T Γ).DecidedBy (drawBound d n)
  term : ∀ {T Γ n}, T.size ≤ n → (lev.term T Γ).DecidedBy (drawBound d n)

namespace Vocabulary

/-- Introductions without depth: at most three draws for each node of the type. -/
lemma decided_groundIntro : (voc.groundIntro T Γ).DecidedBy (3 * T.size) := by
  induction T generalizing Γ with
  | arrow A B _ ihB =>
    have body (Γ : Env) := decided_tryRules (Γ := Γ) (T := B) (ihB (Γ := Γ)) .nil
    refine ((decided_pick _).bind fun x _ => (body _).bind_pure).mono ?_
    rw [Ty.size, List.sum_nil, List.length_nil]
    omega
  | cell l A R ihA ihR =>
    have value := decided_tryRules (Γ := Γ) (T := A) (ihA (Γ := Γ)) .nil
    refine (value.bind fun v _ => ihR.bind_pure).mono ?_
    rw [Ty.size, List.sum_nil, List.length_nil]
    omega
  | _ => exact .pure

/-- An introduction, by the bound for the depth below. -/
lemma decided_introRule (bd : below.Bounded d) (le : T.size ≤ n) :
    (voc.introRule below T Γ).DecidedBy (2 * drawBound d n + 1) := by
  cases T with
  | arrow A B =>
    rw [Ty.size] at le
    have leB : B.size ≤ n := by omega
    exact ((decided_pick _).bind fun x _ => (bd.term leB).bind_pure).mono (by omega)
  | cell l A R =>
    rw [Ty.size] at le
    have leA : A.size ≤ n := by omega
    have leR : R.size ≤ n := by omega
    exact ((bd.term leA).bind fun v _ => (bd.intro leR).bind_pure).mono (by omega)
  | _ => exact .pure

/-- An application, by the bound for the depth below and for a type with a larger argument. -/
lemma decided_appRule (bd : below.Bounded d) (k : Nat) (le : T.size + 8 ≤ n) :
    (voc.appRule k below T Γ).DecidedBy (2 * drawBound d n + 11) := by
  have small := Nat.min_le_right k 1
  refine ((decided_argument small).bind (n := 2 * drawBound d n) fun U gives => ?_).mono (by omega)
  have leU := (size_argument small).gives gives
  have leF : (Ty.arrow U T).size ≤ n := by
    rw [Ty.size]
    omega
  have leA : U.size ≤ n := by omega
  split
  · exact .pure
  · refine ((bd.term leF).bind fun f _ => (bd.term leA).bind (n := 0) fun a _ => ?_).mono (by omega)
    split
    · exact .pure
    · exact .pure

/-- A projection, by the bound for the depth below and for a record around the type. -/
lemma decided_projRule (bd : below.Bounded d) (le : T.size + 8 ≤ n) :
    (voc.projRule below T Γ).DecidedBy (drawBound d n + 9) := by
  refine (decided_fieldsAround.bind (n := drawBound d n) ?_).mono (by omega)
  rintro ⟨l, before, behind⟩ gives
  have leR := size_around gives T
  exact (bd.term (by omega)).bind_pure

/-- By induction on the depth, every level keeps to its bound. -/
lemma bounded_level (d : Nat) : (voc.level d).Bounded d := by
  induction d with
  | zero =>
    constructor
    · intro T Γ n le
      refine decided_groundIntro.mono ?_
      rw [drawBound]
      omega
    · intro T Γ n le
      refine (decided_tryRules decided_groundIntro .nil).mono ?_
      rw [drawBound, List.sum_nil, List.length_nil]
      omega
  | succ d ih =>
    constructor
    · intro T Γ n le
      refine (decided_introRule (n := n + 8) ih (by omega)).mono ?_
      rw [drawBound]
      omega
    · intro T Γ n le
      have leInt : T.size ≤ n + 8 := by omega
      have leElim : T.size + 8 ≤ n + 8 := by omega
      refine (decided_tryRules (decided_introRule ih leInt)
        (.cons (decided_appRule ih d leElim) (.cons (decided_projRule ih leElim) .nil))).mono ?_
      simp only [drawBound, List.sum_cons, List.sum_nil, List.length_cons, List.length_nil]
      omega

end Vocabulary

end RecordLambda
