import RecordLambda.Dynamic.Sharing
import RecordLambda.Proofs.Dynamic.Nameless
import RecordLambda.Proofs.Static.TypeMap

/-!
# Objects under substitution

A substitution has to come to the right term and, where nothing changes, to the very object it was
given. The first is part of the definition, since whatever is noted carries the proof that it is a
result. For the second, `Term.subst_eq_self_iff`, one has to know that a result with the identity of
the given object is that object. So no identity may be used twice.

The objects that there are at a time make up a `Store`. Every stage of a visit only adds to it and
leaves what it has noted and what it comes to inside it, which is `Grown`. There is one lemma for
each way in which a visit goes on, and `grown_visit` puts them together. From outside no store is
seen: objects are `Apart` just if some store has them all, `apart_iff`.
-/

namespace RecordLambda

/-- The objects made so far, by their identities: those below `next`. -/
structure Store where
  next : Nat
  object : Nat → Graph

namespace Store

variable {σ τ υ : Store} {g h : Graph}

/-- What stands in the graph are objects of the store. -/
def Holds (σ : Store) (g : Graph) : Prop :=
  ∀ h ∈ g.positions, h.id < σ.next ∧ σ.object h.id = h

/-- The second store has the objects of the first, and maybe more. -/
structure Extends (σ τ : Store) : Prop where
  next_le : σ.next ≤ τ.next
  object_eq : ∀ i < σ.next, τ.object i = σ.object i

namespace Extends

/-- A store extends itself. -/
lemma refl (σ : Store) : σ.Extends σ := ⟨Nat.le_refl _, fun _ _ => rfl⟩

/-- Extensions may be put together. -/
lemma trans (first : σ.Extends τ) (second : τ.Extends υ) : σ.Extends υ := by
  refine ⟨Nat.le_trans first.next_le second.next_le, fun i lt => ?_⟩
  rw [second.object_eq i (Nat.lt_of_lt_of_le lt first.next_le), first.object_eq i lt]

/-- What a store has, every extension has. -/
lemma holds (ext : σ.Extends τ) (held : σ.Holds g) : τ.Holds g := by
  intro h mem
  obtain ⟨lt, eq⟩ := held h mem
  exact ⟨Nat.lt_of_lt_of_le lt ext.next_le, (ext.object_eq _ lt).trans eq⟩

end Extends

/-- With a graph a store has the graphs below it. -/
lemma Holds.part (held : σ.Holds g) (part : h ∈ g.parts) : σ.Holds h :=
  fun k mem => held k (Graph.mem_positions_of_part part mem)

/-- The store with a further object. -/
def push (σ : Store) (g : Graph) : Store :=
  ⟨σ.next + 1, fun i => if i = σ.next then g else σ.object i⟩

/-- A further object is an extension. -/
lemma extends_push (σ : Store) (g : Graph) : σ.Extends (σ.push g) :=
  ⟨Nat.le_succ _, fun _ lt => if_neg (Nat.ne_of_lt lt)⟩

/-- A new object whose parts are there is in the store. -/
lemma holds_push (root : g.id = σ.next) (parts : ∀ s ∈ g.parts, σ.Holds s) :
    (σ.push g).Holds g := by
  intro h mem
  obtain rfl | ⟨s, part, mem⟩ := Graph.mem_positions.1 mem
  · exact ⟨Nat.lt_succ_of_le (Nat.le_of_eq root), if_pos root⟩
  · exact (σ.extends_push g).holds (parts s part) h mem

end Store

namespace Graph

open Notes

variable {σ τ : Store} {x : String} {v t : Term} {g w : Graph} {s : Notes x v}

/-- The store has the objects of all results noted, and no others are made yet. -/
structure Notes.Within (s : Notes x v) (σ : Store) : Prop where
  next : s.next = σ.next
  noted : ∀ e ∈ s.noted, σ.Holds e.2.1

/-- The result and the notes stay within a store that extends the given one. -/
def Grown (σ : Store) (out : Replaced x v t × Notes x v) : Prop :=
  ∃ τ, σ.Extends τ ∧ out.2.Within τ ∧ τ.Holds out.1.1

/-- What is looked up in the notes is in the store. -/
lemma Notes.Within.found {r : Replaced x v t} (within : s.Within σ)
    (found : lookup t s.noted = some r) : σ.Holds r.1 := by
  obtain ⟨next, noted⟩ := s
  have noted' := within.noted
  clear within
  dsimp only at noted' found
  induction noted with
  | nil => cases found
  | cons e rest ih =>
    obtain ⟨first, rest'⟩ := List.forall_mem_cons.1 noted'
    rw [lookup] at found
    split at found
    · cases found
      exact first
    · exact ih found rest'

/-- The result is there already. -/
lemma grown_same {r : Replaced x v t} (within : s.Within σ) (held : σ.Holds r.1) :
    Grown σ (r, s) :=
  ⟨σ, .refl σ, within, held⟩

/-- The result is a new object, made of some that are there. -/
lemma grown_make {new : Nat → Graph} {right : ∀ i, (new i).term = t.subst x v}
    (within : s.Within σ) (root : ∀ i, (new i).id = i)
    (parts : ∀ h ∈ (new s.next).parts, σ.Holds h) : Grown σ (s.make new right) := by
  refine ⟨σ.push (new s.next), σ.extends_push _, ⟨?_, ?_⟩, ?_⟩
  · exact congrArg (· + 1) within.next
  · exact fun e mem => (σ.extends_push _).holds (within.noted e mem)
  · exact Store.holds_push ((root _).trans within.next) parts

/-- The result is the object itself or a new one in its place. -/
lemma grown_rebuild {new : Nat → Graph} {right : ∀ i, (new i).term = g.term.subst x v}
    (within : s.Within σ) (held : σ.Holds g) (root : ∀ i, (new i).id = i)
    (parts : ∀ h ∈ (new s.next).parts, σ.Holds h) : Grown σ (s.rebuild g new right) := by
  rw [rebuild]
  split
  · exact grown_same within held
  · exact grown_make within root parts

/-- The result is settled on and noted. -/
lemma grown_keep {out : Replaced x v g.term × Notes x v} (held : σ.Holds g)
    (grown : Grown σ out) : Grown σ (keep g out) := by
  obtain ⟨τ, ext, within, heldR⟩ := grown
  have settled : τ.Holds (settle g out.1).1 := by
    rw [settle]
    split
    · exact ext.holds held
    · exact heldR
  exact ⟨τ, ext, ⟨within.next, List.forall_mem_cons.2 ⟨settled, within.noted⟩⟩, settled⟩

/-- The result is the one noted, or else that of the visit. -/
lemma grown_look {go : Unit → Replaced x v g.term × Notes x v} (within : s.Within σ)
    (held : σ.Holds g) (grown : Grown σ (go ())) : Grown σ (s.look g go) := by
  rw [look]
  split
  · rename_i found
    exact grown_same within (within.found found)
  · exact grown_keep held grown

/-- What a later store grows to, an earlier one grows to. -/
lemma Grown.after {out : Replaced x v t × Notes x v} (grown : Grown τ out) (ext : σ.Extends τ) :
    Grown σ out := by
  obtain ⟨υ, ext', within, held⟩ := grown
  exact ⟨υ, ext.trans ext', within, held⟩

/-- Notes stay within the store when other runs have added to it. -/
lemma Notes.Within.after (within : s.Within σ) (ext : σ.Extends τ) {next : Nat}
    (eq : next = τ.next) : ({ s with next } : Notes x v).Within τ :=
  ⟨eq, fun e mem => ext.holds (within.noted e mem)⟩

/-- A new variable, for a run of its own in which nothing is noted yet. -/
lemma exists_store_var (within : s.Within σ) (y z : String) :
    ∃ τ : Store, σ.Extends τ ∧ (⟨s.next + 1, []⟩ : Notes y (.var z)).Within τ ∧
      τ.Holds (var s.next z) := by
  refine ⟨σ.push (var s.next z), σ.extends_push _, ⟨congrArg (· + 1) within.next, ?_⟩, ?_⟩
  · exact List.forall_mem_nil _
  · exact Store.holds_push within.next (List.forall_mem_nil _)

/-- Two parts are visited one after the other. -/
lemma grown_rebuild_two {f a : Term} {first : Replaced x v f × Notes x v}
    {second : Replaced x v a × Notes x v} {new : Nat → Graph}
    {right : ∀ i, (new i).term = g.term.subst x v} (held : σ.Holds g) (root : ∀ i, (new i).id = i)
    (parts : ∀ i, (new i).parts = [first.1.1, second.1.1]) (grown : Grown σ first)
    (next : ∀ {τ}, σ.Extends τ → first.2.Within τ → Grown τ second) :
    Grown σ (second.2.rebuild g new right) := by
  obtain ⟨τ, ext, within, heldF⟩ := grown
  obtain ⟨υ, ext', within', heldA⟩ := next ext within
  refine Grown.after (grown_rebuild within' ((ext.trans ext').holds held) root ?_) (ext.trans ext')
  rw [parts, List.forall_mem_cons, List.forall_mem_singleton]
  exact ⟨ext'.holds heldF, heldA⟩

/-- A visit makes new objects only, and what it comes to consists of objects. -/
lemma grown_visit {s : Notes x w.term} (within : s.Within σ) (heldW : σ.Holds w)
    (heldG : σ.Holds g) : Grown σ (visit x w g s) := by
  -- on the size, since a renamed body is no part of the graph
  induction size : g.term.size using Nat.strongRecOn generalizing x w g s σ with
  | _ n ih =>
    cases g with
    | var i y =>
      rw [visit]
      apply grown_look within heldG
      split
      · exact grown_same within heldW
      · exact grown_same within heldG
    | app i f a =>
      simp only [term, Term.size] at size
      rw [visit]
      apply grown_look within heldG
      refine grown_rebuild_two heldG (fun _ => rfl) (fun _ => rfl) ?_ fun ext within => ?_
      · exact ih _ (by omega) within heldW (heldG.part (.head _)) rfl
      · have heldA := heldG.part (.tail _ (.head _))
        exact ih _ (by omega) within (ext.holds heldW) (ext.holds heldA) rfl
    | abs i y A b =>
      simp only [term, Term.size] at size
      rw [visit]
      apply grown_look within heldG
      dsimp only
      have heldB := heldG.part (.head _)
      split
      · exact grown_same within heldG
      split
      · -- the new variable, the run that renames, and the visit of the renamed body
        obtain ⟨σ', ext₁, within₁, heldZ⟩ :=
          exists_store_var within y (fresh y (w.term.freeVars ++ b.term.freeVars ++ [x]))
        obtain ⟨τ, ext₂, inner, heldB⟩ := ih _ (by omega) within₁ heldZ (ext₁.holds heldB) rfl
        have ext₂ := ext₁.trans ext₂
        obtain ⟨υ, ext₃, within, heldR⟩ := ih b.term.size (by omega) (within.after ext₂ inner.next)
          (ext₂.holds heldW) heldB (Replaced.size_eq _)
        refine Grown.after (grown_make within (fun _ => rfl) ?_) (ext₂.trans ext₃)
        exact List.forall_mem_singleton.2 heldR
      · obtain ⟨τ, ext, within, heldB⟩ := ih _ (by omega) within heldW heldB rfl
        refine Grown.after (grown_make within (fun _ => rfl) ?_) ext
        exact List.forall_mem_singleton.2 heldB
    | proj i r l =>
      simp only [term, Term.size] at size
      rw [visit]
      apply grown_look within heldG
      obtain ⟨τ, ext, within, heldR⟩ := ih _ (by omega) within heldW (heldG.part (.head _)) rfl
      refine Grown.after (grown_rebuild within (ext.holds heldG) (fun _ => rfl) ?_) ext
      exact List.forall_mem_singleton.2 heldR
    | empty i =>
      rw [visit]
      exact grown_look within heldG (grown_same within heldG)
    | cell i l h r =>
      simp only [term, Term.size] at size
      rw [visit]
      apply grown_look within heldG
      refine grown_rebuild_two heldG (fun _ => rfl) (fun _ => rfl) ?_ fun ext within => ?_
      · exact ih _ (by omega) within heldW (heldG.part (.head _)) rfl
      · have heldR := heldG.part (.tail _ (.head _))
        exact ih _ (by omega) within (ext.holds heldW) (ext.holds heldR) rfl
    | hole i =>
      rw [visit]
      exact grown_look within heldG (grown_same within heldG)

/-! ## Substitution -/

/-- Forgetting the objects, substitution into a graph is substitution into its term. -/
lemma term_subst (g : Graph) (x : String) (w : Graph) (n : Nat) :
    (g.subst x w n).1.term = g.term.subst x w.term :=
  (visit x w g ⟨n, []⟩).1.2

/-- Where nothing is noted, what is found out for an object is settled on. -/
lemma look_eq_self {n : Nat} {go : Unit → Replaced x v g.term × Notes x v}
    (same : g.term.subst x v = g.term) : ((⟨n, []⟩ : Notes x v).look g go).1.1 = g := by
  show (settle g (go ()).1).1 = g
  rw [settle, dif_pos ((go ()).1.2.trans same)]

/-- The object is given back if its term does not change. -/
lemma subst_eq_self {n : Nat} (same : g.term.subst x w.term = g.term) :
    (g.subst x w n).1 = g := by
  rw [subst]
  cases g <;> rw [visit] <;> exact look_eq_self same

/-- The objects of the graphs have identities below `next`, and no identity belongs to two of
them. -/
structure Apart (next : Nat) (gs : List Graph) : Prop where
  id_lt : ∀ h ∈ gs.flatMap positions, h.id < next
  eq_of_id_eq : ∀ h ∈ gs.flatMap positions, ∀ h' ∈ gs.flatMap positions, h.id = h'.id → h = h'

/-- Two of the graphs with the same identity are one. -/
lemma Apart.root_unique {n : Nat} {gs : List Graph} {h : Graph} (apart : Apart n gs) (memG : g ∈ gs)
    (memH : h ∈ gs) (same : g.id = h.id) : g = h :=
  apart.eq_of_id_eq g (List.mem_flatMap.2 ⟨g, memG, g.mem_positions_self⟩) h
    (List.mem_flatMap.2 ⟨h, memH, h.mem_positions_self⟩) same

/-- What is kept apart are the objects of some store. -/
lemma apart_iff {n : Nat} {gs : List Graph} :
    Apart n gs ↔ ∃ σ : Store, σ.next = n ∧ ∀ g ∈ gs, σ.Holds g := by
  constructor
  · intro apart
    let object (i : Nat) : Graph := ((gs.flatMap positions).find? (·.id = i)).getD (hole i)
    refine ⟨⟨n, object⟩, rfl, fun g mem h memH => ?_⟩
    have memH : h ∈ gs.flatMap positions := List.mem_flatMap.2 ⟨g, mem, memH⟩
    refine ⟨apart.id_lt h memH, ?_⟩
    show ((gs.flatMap positions).find? (·.id = h.id)).getD (hole h.id) = h
    cases found : (gs.flatMap positions).find? (·.id = h.id) with
    | none => exact absurd (decide_eq_true rfl) (List.find?_eq_none.1 found h memH)
    | some h' =>
      have same := List.find?_some found
      simp only [decide_eq_true_eq] at same
      exact apart.eq_of_id_eq h' (List.mem_of_find?_eq_some found) h memH same
  · rintro ⟨σ, rfl, held⟩
    constructor
    · intro h mem
      obtain ⟨g, memG, mem⟩ := List.mem_flatMap.1 mem
      exact (held g memG h mem).1
    · intro h mem h' mem' same
      obtain ⟨g, memG, mem⟩ := List.mem_flatMap.1 mem
      obtain ⟨g', memG', mem'⟩ := List.mem_flatMap.1 mem'
      rw [← (held g memG h mem).2, ← (held g' memG' h' mem').2, same]

/-- Substitution makes new objects for the terms that it changes, and keeps all objects apart. -/
lemma apart_subst {n : Nat} (apart : Apart n [w, g]) :
    Apart (g.subst x w n).2 [w, g, (g.subst x w n).1] := by
  obtain ⟨σ, rfl, held⟩ := apart_iff.1 apart
  simp only [List.forall_mem_cons] at held
  obtain ⟨heldW, heldG, -⟩ := held
  have start : (⟨σ.next, []⟩ : Notes x w.term).Within σ := ⟨rfl, List.forall_mem_nil _⟩
  obtain ⟨τ, ext, within, heldR⟩ := grown_visit start heldW heldG
  refine apart_iff.2 ⟨τ, within.next.symm, ?_⟩
  simp only [List.forall_mem_cons]
  exact ⟨ext.holds heldW, ext.holds heldG, heldR, List.forall_mem_nil _⟩

/-- A substitution gives the object back just if it gives the term back. -/
lemma id_subst_eq_iff {n : Nat} (apart : Apart n [w, g]) :
    (g.subst x w n).1.id = g.id ↔ g.term.subst x w.term = g.term := by
  constructor
  · intro same
    have eq : (g.subst x w n).1 = g :=
      (apart_subst apart).root_unique (.tail _ (.tail _ (.head _))) (.tail _ (.head _)) same
    rw [← term_subst g x w n, eq]
  · intro same
    rw [subst_eq_self same]

end Graph

/-- Substitution gives the term itself back just if there is nothing to replace or a variable is
replaced by itself. No other term that is put in, and no renaming on the way, makes up for a
replacement. Likewise for objects: substitution gives an object for the result, and that is the
given one just in these cases. -/
theorem Term.subst_eq_self_iff (x : String) (v t : Term) :
    (t.subst x v = t ↔ x ∉ t.freeVars ∨ v = var x) ∧
    ∀ (w g : Graph) (n : Nat), Graph.Apart n [w, g] → w.term = v → g.term = t →
      (g.subst x w n).1.term = t.subst x v ∧
      Graph.Apart (g.subst x w n).2 [w, g, (g.subst x w n).1] ∧
      ((g.subst x w n).1.id = g.id ↔ x ∉ t.freeVars ∨ v = var x) := by
  refine ⟨subst_fixes_iff, ?_⟩
  rintro w g n apart rfl rfl
  refine ⟨g.term_subst x w n, Graph.apart_subst apart, ?_⟩
  rw [Graph.id_subst_eq_iff apart, subst_fixes_iff]

/-- One object for `x` stands at two positions. If another one for `x` is put for it, the object at
the root stays; if one for `y` is put for it, the binder is renamed and there is a new root. -/
theorem Term.subst_eq_self_iff_shared :
    let x : Graph := .var 1 "x"
    let g : Graph := .abs 4 "y" .empty (.app 3 x (.app 2 x (.var 0 "y")))
    let w : Graph := .var 5 "x"
    let u : Graph := .var 5 "y"
    Graph.Apart 6 [w, g] ∧ (g.subst "x" w 6).1.id = 4 ∧
      Graph.Apart 6 [u, g] ∧ (g.subst "x" u 6).1.id ≠ 4 := by
  intro x g w u
  have apartW : Graph.Apart 6 [w, g] := ⟨by decide, by decide⟩
  have apartU : Graph.Apart 6 [u, g] := ⟨by decide, by decide⟩
  obtain ⟨-, -, sameW⟩ := (subst_eq_self_iff "x" _ _).2 w g 6 apartW rfl rfl
  obtain ⟨-, -, sameU⟩ := (subst_eq_self_iff "x" _ _).2 u g 6 apartU rfl rfl
  refine ⟨apartW, sameW.2 (.inr rfl), apartU, mt sameU.1 ?_⟩
  decide

end RecordLambda
