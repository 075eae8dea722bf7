import RecordLambda.Dynamic.Subst
import RecordLambda.Proofs.Name

/-!
# Substitution as a relation

The function `Term.subst` recurses on the size of a term, since it goes on in a renamed body, and it
fixes the new name of a binder. The relation `Substituted` has the same rules and leaves the new
name open: any one will do that the rule about capture allows. So what is proved by induction on it
does not depend on how fresh names are made, and the renaming of a body and the substitution in the
renamed body each come with an induction hypothesis.

The free variables of a substitution are the first use: see `mem_freeVars_subst`.
-/

namespace RecordLambda

/-- The term `r` is `t` with `v` put for the free occurrences of `x`, in the order `x`, `v`, `t`,
`r`. -/
inductive Substituted : String → Term → Term → Term → Prop where
  | varHit {x v} :
    Substituted x v (.var x) v
  | varMiss {x v y} :
    y ≠ x →
    Substituted x v (.var y) (.var y)
  | app {x v f f' a a'} :
    Substituted x v f f' →
    Substituted x v a a' →
    Substituted x v (.app f a) (.app f' a')
  /-- Below the binder there is nothing to replace. -/
  | absKeep {x v y A b} :
    x ∉ (Term.abs y A b).freeVars →
    Substituted x v (.abs y A b) (.abs y A b)
  /-- The binder would capture a free variable of `v`, so it becomes `z`. -/
  | absRename {x v y z A b b' r} :
    y ≠ x →
    x ∈ b.freeVars →
    y ∈ v.freeVars →
    z ∉ v.freeVars →
    z ∉ b.freeVars →
    z ≠ x →
    Substituted y (.var z) b b' →
    Substituted x v b' r →
    Substituted x v (.abs y A b) (.abs z A r)
  | absDown {x v y A b r} :
    y ≠ x →
    x ∈ b.freeVars →
    y ∉ v.freeVars →
    Substituted x v b r →
    Substituted x v (.abs y A b) (.abs y A r)
  | proj {x v r r' l} :
    Substituted x v r r' →
    Substituted x v (.proj r l) (.proj r' l)
  | empty {x v} :
    Substituted x v .empty .empty
  | cell {x v l w w' r r'} :
    Substituted x v w w' →
    Substituted x v r r' →
    Substituted x v (.cell l w r) (.cell l w' r')
  | hole {x v} :
    Substituted x v .hole .hole

namespace Term

/-- Substitution obeys its rules. -/
lemma substituted_subst (x : String) (v t : Term) : Substituted x v t (t.subst x v) := by
  -- on the size: a renamed body is as large as the body, but it is no part of the term
  induction h : t.size using Nat.strongRecOn generalizing t x v with
  | _ n ih =>
    cases t with
    | var y =>
      rw [subst_var]
      split
      case isTrue e => subst e; exact .varHit
      case isFalse ne => exact .varMiss ne
    | app f a =>
      simp only [size] at h
      rw [subst_app]
      exact .app (ih _ (by omega) x v f rfl) (ih _ (by omega) x v a rfl)
    | abs y A b =>
      simp only [size] at h
      rw [subst_abs]
      split
      case isTrue keep =>
        apply Substituted.absKeep
        rw [mem_freeVars_abs]
        exact fun ⟨mem, ne⟩ => keep.elim (fun e => ne e.symm) (fun out => out mem)
      case isFalse go =>
        obtain ⟨ne, mem⟩ := not_or.1 go
        have mem := not_not.1 mem
        split
        case isTrue cap =>
          have new := fresh_not_mem y (v.freeVars ++ b.freeVars ++ [x])
          simp only [List.mem_append, List.mem_singleton, not_or] at new
          obtain ⟨⟨newV, newB⟩, newX⟩ := new
          refine .absRename ne mem cap newV newB newX (ih _ (by omega) y _ b rfl) ?_
          exact ih _ (by rw [size_subst_var]; omega) x v _ rfl
        case isFalse out =>
          exact .absDown ne mem out (ih _ (by omega) x v b rfl)
    | proj r l =>
      simp only [size] at h
      rw [subst_proj]
      exact .proj (ih _ (by omega) x v r rfl)
    | empty => rw [subst_empty]; exact .empty
    | cell l w r =>
      simp only [size] at h
      rw [subst_cell]
      exact .cell (ih _ (by omega) x v w rfl) (ih _ (by omega) x v r rfl)
    | hole => rw [subst_hole]; exact .hole

end Term

namespace Substituted

open Term

variable {x w : String} {v t r : Term}

/-- The free variables after a substitution: those before it without `x`, and those of `v` if `x`
was among them. -/
lemma mem_freeVars (sub : Substituted x v t r) :
    w ∈ r.freeVars ↔ w ∈ t.freeVars ∧ w ≠ x ∨ x ∈ t.freeVars ∧ w ∈ v.freeVars := by
  induction sub generalizing w with
  | varHit => simp
  | varMiss ne => simp only [mem_freeVars_var]; grind
  | app _ _ ihf iha => simp only [mem_freeVars_app, ihf, iha]; grind
  | absKeep out => grind
  | absRename ne mem cap newV newB newX _ _ ihb ihr =>
    -- the new name comes in for `y` and is hidden again by the new binder
    simp only [mem_freeVars_abs, ihr, ihb, mem_freeVars_var]
    grind
  | absDown ne mem out _ ih => simp only [mem_freeVars_abs, ih]; grind
  | proj _ ih => simpa only [mem_freeVars_proj] using ih
  | empty => simp
  | cell _ _ ihw ihr => simp only [mem_freeVars_cell, ihw, ihr]; grind
  | hole => simp

/-- Where `x` is not free there is nothing to replace. -/
lemma eq_of_not_mem (sub : Substituted x v t r) (out : x ∉ t.freeVars) : r = t := by
  induction sub with
  | varHit => exact absurd (mem_freeVars_var.2 rfl) out
  | varMiss _ => rfl
  | app _ _ ihf iha =>
    obtain ⟨outF, outA⟩ := not_or.1 (mt mem_freeVars_app.2 out)
    rw [ihf outF, iha outA]
  | absKeep _ => rfl
  | absRename ne mem _ _ _ _ _ _ _ _ => exact absurd (mem_freeVars_abs.2 ⟨mem, ne.symm⟩) out
  | absDown ne mem _ _ _ => exact absurd (mem_freeVars_abs.2 ⟨mem, ne.symm⟩) out
  | proj _ ih => rw [ih out]
  | empty => rfl
  | cell _ _ ihw ihr =>
    obtain ⟨outW, outR⟩ := not_or.1 (mt mem_freeVars_cell.2 out)
    rw [ihw outW, ihr outR]
  | hole => rfl

/-- A record stays a record. -/
lemma isRecord (sub : Substituted x v t r) (rec : t.isRecord) : r.isRecord := by
  cases sub with
  | empty => rfl
  | cell _ _ => rfl
  | _ => cases rec

end Substituted

namespace Term

/-- The free variables of the result: those of the term without `x`, and those of `v` if `x` was
free. -/
lemma mem_freeVars_subst {x w : String} {v t : Term} :
    w ∈ (t.subst x v).freeVars ↔ w ∈ t.freeVars ∧ w ≠ x ∨ x ∈ t.freeVars ∧ w ∈ v.freeVars :=
  (substituted_subst x v t).mem_freeVars

/-- Nothing changes if the variable is not free. -/
lemma subst_of_not_mem {x : String} {v t : Term} (out : x ∉ t.freeVars) : t.subst x v = t :=
  (substituted_subst x v t).eq_of_not_mem out

/-- The free variables after a substitution are just those that have to be there: the other free
variables of the term stay, those of `v` come in if there is something to replace, and no name of a
renamed binder gets out. -/
theorem freeVars_subst (x : String) (v t : Term) :
    (t.subst x v).freeVars.toFinset =
      if x ∈ t.freeVars then t.freeVars.toFinset \ {x} ∪ v.freeVars.toFinset
      else t.freeVars.toFinset := by
  split
  case isTrue mem =>
    ext w
    simp only [List.mem_toFinset, Finset.mem_union, Finset.mem_sdiff, Finset.mem_singleton,
      mem_freeVars_subst]
    exact or_congr_right (and_iff_right mem)
  case isFalse out => rw [subst_of_not_mem out]

end Term

end RecordLambda
