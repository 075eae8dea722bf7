import RecordLambda.Gen.Source
import Mathlib.Tactic.Lemma

/-!
# What a computation ensures

A computation that draws from a source ensures a property if all its results have it, whatever the
source. A failure has no result, so nothing is said about it. There is one rule for each way in
which computations are put together, and no later proof looks at the source itself.

A computation reaches a result if there are numbers to be drawn on which it comes to it. The choices
that all others are made of reach everything that they may come to: every number up to the bound,
every item of a list, both sides of a toss, and every order of a list, `reaches_shuffle_iff`. So
what is proved about all draws holds for any other generator behind the source.
-/

namespace RecordLambda

namespace Gen

variable {α β : Type} {g : Gen α} {p : α → Prop} {q : β → Prop}

/-- All results have the property, whatever is drawn. -/
def Ensures (g : Gen α) (p : α → Prop) : Prop :=
  ∀ s a s', g.runOn s = (.ok a, s') → p a

/-- The second part draws what the first has left, and a failure of the first is one of the whole.
-/
lemma runOn_bind (g : Gen α) (f : α → Gen β) (s : Source) :
    (g >>= f).runOn s =
      match g.runOn s with
      | (.ok a, s') => (f a).runOn s'
      | (.error e, s') => (.error e, s') := by
  rw [runOn, ExceptT.run_bind, StateT.run_bind]
  rcases eq : g.runOn s with ⟨e | a, s'⟩
  all_goals
    have eq : (ExceptT.run g).run s = _ := eq
    rw [eq]
    rfl

namespace Ensures

/-- A weaker property is ensured too. -/
lemma mono {q : α → Prop} (first : g.Ensures p) (imp : ∀ a, p a → q a) : g.Ensures q :=
  fun s a s' run => imp a (first s a s' run)

lemma pure {a : α} (holds : p a) : (Pure.pure a : Gen α).Ensures p := by
  intro s b s' run
  cases run
  exact holds

lemma throw {e : EmptyChoice} : (MonadExcept.throw e : Gen α).Ensures p := by
  intro s b s' run
  cases run

/-- What the first part ensures may be used for the second. -/
lemma bind {f : α → Gen β} (first : g.Ensures p) (next : ∀ a, p a → (f a).Ensures q) :
    (g >>= f).Ensures q := by
  intro s b s' run
  rw [runOn_bind] at run
  rcases eq : g.runOn s with ⟨e | a, s₁⟩
  · rw [eq] at run
    cases run
  · rw [eq] at run
    exact next a (first s a s₁ eq) s₁ b s' run

/-- Two properties are ensured together. -/
lemma and {q : α → Prop} (left : g.Ensures p) (right : g.Ensures q) :
    g.Ensures fun a => p a ∧ q a :=
  fun s a s' run => ⟨left s a s' run, right s a s' run⟩

/-- Where nothing is known about a result, nothing is assumed of it. -/
lemma bind_any {f : α → Gen β} (next : ∀ a, (f a).Ensures q) : (g >>= f).Ensures q :=
  bind (p := fun _ => True) (fun _ _ _ _ => trivial) fun a _ => next a

end Ensures

/-! ## Choices -/

/-- The number is not above the bound. -/
lemma ensures_upTo (n : Nat) : (upTo n).Ensures (· ≤ n) :=
  .bind_any fun _ => .pure (Nat.le_of_lt_succ (Nat.mod_lt _ (Nat.succ_pos n)))

/-- What is picked is an item of the list. -/
lemma ensures_pick (xs : List α) : (pick xs).Ensures (· ∈ xs) := by
  cases xs with
  | nil => exact .throw
  | cons x rest =>
    refine .bind_any fun i => .pure ?_
    cases eq : (x :: rest)[i]? with
    | none => exact List.mem_cons_self
    | some y => exact List.mem_of_getElem? eq

/-- Every one of the results has the property that each is to have. -/
lemma ensures_times (each : g.Ensures p) (n : Nat) :
    (times n g).Ensures fun xs => ∀ a ∈ xs, p a := by
  induction n with
  | zero => exact .pure nofun
  | succ n ih =>
    refine each.bind fun a holds => ih.bind fun rest all => .pure ?_
    exact List.forall_mem_cons.2 ⟨holds, all⟩

/-- There are as many results as asked for. -/
lemma ensures_length_times (n : Nat) : (times n g).Ensures (·.length = n) := by
  induction n with
  | zero => exact .pure rfl
  | succ n ih =>
    exact .bind_any fun a => ih.bind fun rest len => .pure (congrArg (· + 1) len)

/-- Exchanging items keeps them. -/
lemma ensures_shuffleFrom (i : Nat) (xs : Array α) : (shuffleFrom i xs).Ensures (·.Perm xs) := by
  induction i generalizing xs with
  | zero => exact .pure (.refl xs)
  | succ i ih =>
    refine .bind_any fun j => (ih _).mono fun ys perm => perm.trans ?_
    unfold Array.swapIfInBounds
    split
    · split
      · exact Array.swap_perm _ _
      · exact .refl xs
    · exact .refl xs

/-- Shuffling only changes the order. -/
lemma ensures_shuffle (xs : List α) : (shuffle xs).Ensures (·.Perm xs) := by
  refine (ensures_shuffleFrom _ xs.toArray).bind fun ys perm => .pure ?_
  exact Array.perm_iff_toList_perm.1 perm

/-- The first result has what all computations tried ensure. -/
lemma ensures_firstSome {gs : List (Gen (Option α))} {p : Option α → Prop} (none : p none)
    (each : ∀ g ∈ gs, g.Ensures p) : (firstSome gs).Ensures p := by
  induction gs with
  | nil => exact .pure none
  | cons g gs ih =>
    obtain ⟨first, rest⟩ := List.forall_mem_cons.1 each
    refine first.bind fun o holds => ?_
    cases o with
    | none => exact ih rest
    | some a => exact .pure holds

/-! ## What is reached -/

/-- Some numbers make the computation come to the result, whatever stands behind them. -/
def Reaches (g : Gen α) (a : α) : Prop :=
  ∃ ns : List Nat, ∀ rest state used,
    g.runOn ⟨ns ++ rest, state, used⟩ = (.ok a, ⟨rest, state, used + ns.length⟩)

namespace Reaches

/-- What is reached has the properties that are ensured. -/
lemma ensures {a : α} (reaches : g.Reaches a) (all : g.Ensures p) : p a := by
  obtain ⟨ns, run⟩ := reaches
  exact all _ a _ (run [] 0 0)

lemma pure {a : α} : (Pure.pure a : Gen α).Reaches a := ⟨[], fun _ _ _ => rfl⟩

/-- Results of the parts are reached one after the other. -/
lemma bind {f : α → Gen β} {a : α} {b : β} (first : g.Reaches a) (next : (f a).Reaches b) :
    (g >>= f).Reaches b := by
  obtain ⟨ns, run⟩ := first
  obtain ⟨ms, run'⟩ := next
  refine ⟨ns ++ ms, fun rest state used => ?_⟩
  rw [List.append_assoc, runOn_bind, run]
  dsimp only
  rw [run', List.length_append, Nat.add_assoc]

end Reaches

/-- Any number may be drawn. -/
lemma reaches_raw (n : Nat) : raw.Reaches n := ⟨[n], fun _ _ _ => rfl⟩

/-- Every number up to the bound is reached, and no other. -/
lemma reaches_upTo_iff {n i : Nat} : (upTo n).Reaches i ↔ i ≤ n := by
  refine ⟨fun reaches => reaches.ensures (ensures_upTo n), fun le => ?_⟩
  have small : i % (n + 1) = i := Nat.mod_eq_of_lt (Nat.lt_succ_of_le le)
  have last : (Pure.pure (i % (n + 1)) : Gen Nat).Reaches i := by
    rw [small]
    exact .pure
  exact .bind (reaches_raw i) last

/-- Every item of the list is reached, and nothing else. -/
lemma reaches_pick_iff {xs : List α} {x : α} : (pick xs).Reaches x ↔ x ∈ xs := by
  refine ⟨fun reaches => reaches.ensures (ensures_pick xs), fun mem => ?_⟩
  cases xs with
  | nil => cases mem
  | cons y rest =>
    obtain ⟨i, lt, eq⟩ := List.getElem_of_mem mem
    have item : (y :: rest)[i]?.getD y = x := by rw [List.getElem?_eq_getElem lt, eq]; rfl
    refine .bind (reaches_upTo_iff.2 (Nat.le_of_lt_succ lt)) ?_
    rw [item]
    exact .pure

/-- A toss may go either way. -/
lemma reaches_coin (b : Bool) : coin.Reaches b := by
  cases b with
  | true => exact .bind (reaches_raw 0) .pure
  | false => exact .bind (reaches_raw 0x7fffffff) .pure

/-- Items that stay can be left out of a change of order. -/
lemma perm_take {k : Nat} {xs ys : List α} (perm : ys.Perm xs) (stay : ys.drop k = xs.drop k) :
    (ys.take k).Perm (xs.take k) := by
  rw [← List.take_append_drop k ys, ← List.take_append_drop k xs, stay] at perm
  exact (List.perm_append_right_iff _).1 perm

/-- After the exchange the item `k` is in its place, and so are those behind it. -/
lemma drop_swap {k j : Nat} {xs ys : Array α} (ltK : k < xs.size) (ltJ : j < xs.size) (le : j ≤ k)
    (ltY : k < ys.size) (item : xs[j] = ys[k])
    (stay : ys.toList.drop (k + 1) = xs.toList.drop (k + 1)) :
    ys.toList.drop k = (xs.swap k j).toList.drop k := by
  have rest : (xs.swap k j).toList.drop (k + 1) = xs.toList.drop (k + 1) := by
    rw [Array.toList_swap, List.drop_set_of_lt (Nat.lt_succ_of_le le),
      List.drop_set_of_lt (Nat.lt_succ_self k)]
  have ltY' : k < ys.toList.length := by rwa [Array.length_toList]
  have ltZ : k < (xs.swap k j).toList.length := by rwa [Array.length_toList, Array.size_swap]
  rw [List.drop_eq_getElem_cons ltY', List.drop_eq_getElem_cons ltZ, rest, stay,
    Array.getElem_toList, Array.getElem_toList, Array.getElem_swap_left, item]

/-- Every order is reached in which the items behind `i` stay. -/
lemma reaches_shuffleFrom {i : Nat} {xs ys : Array α} (lt : i < xs.size)
    (perm : ys.toList.Perm xs.toList)
    (stay : ys.toList.drop (i + 1) = xs.toList.drop (i + 1)) : (shuffleFrom i xs).Reaches ys := by
  induction i generalizing xs with
  | zero =>
    -- one item is left, and it has no other place
    have same : ys.toList.take 1 = xs.toList.take 1 := by
      have front := perm_take perm stay
      generalize xs.toList = l at front ⊢
      cases l with
      | nil => exact List.perm_nil.1 front
      | cons x rest => exact List.perm_singleton.1 front
    have eq : ys = xs := by
      apply Array.toList_inj.1
      rw [← List.take_append_drop 1 ys.toList, same, stay, List.take_append_drop]
    rw [eq]
    exact .pure
  | succ i ih =>
    have ltY : i + 1 < ys.size := Nat.lt_of_lt_of_eq lt perm.length_eq.symm
    -- the item that has to come to the place stands at it or before it
    have mem : ys[i + 1] ∈ ys.toList.take (i + 1 + 1) :=
      List.mem_take_iff_getElem.2 ⟨i + 1, Nat.lt_min.2 ⟨Nat.lt_succ_self _, ltY⟩, rfl⟩
    obtain ⟨j, bound, item⟩ := List.mem_take_iff_getElem.1 ((perm_take perm stay).subset mem)
    obtain ⟨leJ, ltJ⟩ := Nat.lt_min.1 bound
    have leJ := Nat.le_of_lt_succ leJ
    have ltJ : j < xs.size := ltJ
    refine .bind (reaches_upTo_iff.2 leJ) ?_
    rw [Array.swapIfInBounds_def, dif_pos lt, dif_pos ltJ]
    apply ih
    · rw [Array.size_swap]
      exact Nat.lt_of_succ_lt lt
    · exact perm.trans (Array.perm_iff_toList_perm.1 (Array.swap_perm lt ltJ)).symm
    · exact drop_swap lt ltJ leJ ltY item stay

/-- Every order of the items is reached, and nothing else. -/
lemma reaches_shuffle_iff {xs ys : List α} : (shuffle xs).Reaches ys ↔ ys.Perm xs := by
  refine ⟨fun reaches => reaches.ensures (ensures_shuffle xs), fun perm => ?_⟩
  refine .bind (a := ys.toArray) ?_ .pure
  cases xs with
  | nil =>
    cases List.perm_nil.1 perm
    exact .pure
  | cons x rest =>
    have len : ys.length = rest.length + 1 := perm.length_eq
    apply reaches_shuffleFrom
    · exact Nat.lt_succ_self rest.length
    · exact perm
    · exact (List.drop_eq_nil_of_le (Nat.le_of_eq len)).trans List.drop_length.symm

end Gen

end RecordLambda
