import RecordLambda.Proofs.Dynamic.Subst

/-!
# Substitution without renaming

The plain rule of substitution goes below every binder except one of the name that is replaced, and
lets a binder capture what it will. `Term.subst` does three things that the plain rule does not: it
renames a binder, it stops where there is nothing to replace, and after a renaming it goes on in a
term that is no part of the one it began with.

None of this is seen when no binder of the term is a free variable of what is put in,
`Term.subst_eq_plainSubst`. The result is then the same to the letter, and not only up to the names
of binders. A closed term can always be put in like this, so what the plain rule allows, such as
exchanging two substitutions, is allowed for closed terms.
-/

namespace RecordLambda

namespace Term

/-- Puts `v` for `x` without renaming. -/
def plainSubst : Term → String → Term → Term
  | var y, x, v => if y = x then v else var y
  | app f a, x, v => app (f.plainSubst x v) (a.plainSubst x v)
  | abs y A b, x, v => if y = x then abs y A b else abs y A (b.plainSubst x v)
  | proj r l, x, v => proj (r.plainSubst x v) l
  | empty, _, _ => empty
  | cell l w r, x, v => cell l (w.plainSubst x v) (r.plainSubst x v)
  | hole, _, _ => hole

/-- The names of the binders, once for each of them and from left to right. -/
def binders : Term → List String
  | var _ | empty | hole => []
  | app f a => f.binders ++ a.binders
  | abs x _ b => x :: b.binders
  | proj r _ => r.binders
  | cell _ v r => v.binders ++ r.binders

variable {x y w : String} {v u t b : Term} {A : Ty}

lemma plainSubst_abs_self : (abs x A b).plainSubst x v = abs x A b := if_pos rfl

lemma plainSubst_abs_of_ne (ne : y ≠ x) :
    (abs y A b).plainSubst x v = abs y A (b.plainSubst x v) :=
  if_neg ne

/-- The plain rule changes nothing where the variable is not free. -/
lemma plainSubst_of_not_mem (out : x ∉ t.freeVars) : t.plainSubst x v = t := by
  induction t with
  | var y =>
    apply if_neg
    intro e
    exact out (mem_freeVars_var.2 e.symm)
  | app f a ihf iha =>
    obtain ⟨outF, outA⟩ := not_or.1 (mt mem_freeVars_app.2 out)
    rw [plainSubst, ihf outF, iha outA]
  | abs y A b ih =>
    by_cases e : y = x
    · subst e
      exact plainSubst_abs_self
    · have outB : x ∉ b.freeVars := fun mem => out (mem_freeVars_abs.2 ⟨mem, Ne.symm e⟩)
      rw [plainSubst_abs_of_ne e, ih outB]
  | proj r l ih => rw [plainSubst, ih out]
  | empty => rfl
  | cell l w r ihw ihr =>
    obtain ⟨outW, outR⟩ := not_or.1 (mt mem_freeVars_cell.2 out)
    rw [plainSubst, ihw outW, ihr outR]
  | hole => rfl

/-- Where no binder is in the way, substitution follows the plain rule. -/
lemma subst_eq_plainSubst (out : ∀ w ∈ v.freeVars, w ∉ t.binders) :
    t.subst x v = t.plainSubst x v := by
  induction t with
  | var y => exact subst_var y x v
  | app f a ihf iha =>
    rw [subst_app, plainSubst, ihf, iha]
    · intro w mem memA
      exact out w mem (List.mem_append_right _ memA)
    · intro w mem memF
      exact out w mem (List.mem_append_left _ memF)
  | abs y A b ih =>
    rw [subst_abs]
    split
    case isTrue keep =>
      -- here the plain rule may go on, but it finds nothing to replace
      symm
      apply plainSubst_of_not_mem
      rw [mem_freeVars_abs]
      exact fun ⟨mem, ne⟩ => keep.elim (fun e => ne e.symm) (fun outB => outB mem)
    case isFalse go =>
      obtain ⟨ne, _⟩ := not_or.1 go
      split
      case isTrue cap => exact absurd (List.mem_cons_self ..) (out y cap)
      case isFalse _ =>
        rw [plainSubst_abs_of_ne ne, ih]
        intro w mem memB
        exact out w mem (List.mem_cons_of_mem _ memB)
  | proj r l ih => rw [subst_proj, plainSubst, ih out]
  | empty => exact subst_empty x v
  | cell l w r ihw ihr =>
    rw [subst_cell, plainSubst, ihw, ihr]
    · intro w mem memR
      exact out w mem (List.mem_append_right _ memR)
    · intro w mem memW
      exact out w mem (List.mem_append_left _ memW)
  | hole => exact subst_hole x v

/-- Nothing can be caught when a closed term is put in, so the plain rule is followed. -/
lemma subst_eq_plainSubst_of_closed (cl : v.closed) : t.subst x v = t.plainSubst x v := by
  apply subst_eq_plainSubst
  intro w mem
  exact absurd mem (closed_iff.1 cl w)

/-- The binders of the result come from the term and from what is put in. -/
lemma mem_binders_plainSubst (mem : w ∈ (t.plainSubst x v).binders) :
    w ∈ t.binders ∨ w ∈ v.binders := by
  induction t with
  | var y =>
    rw [plainSubst] at mem
    split at mem
    · exact .inr mem
    · exact .inl mem
  | app f a ihf iha =>
    obtain memF | memA := List.mem_append.1 mem
    · exact (ihf memF).imp_left (List.mem_append_left _)
    · exact (iha memA).imp_left (List.mem_append_right _)
  | abs y A b ih =>
    by_cases e : y = x
    · subst e
      rw [plainSubst_abs_self] at mem
      exact .inl mem
    · rw [plainSubst_abs_of_ne e] at mem
      obtain rfl | memB := List.mem_cons.1 mem
      · exact .inl (List.mem_cons_self ..)
      · exact (ih memB).imp_left (List.mem_cons_of_mem _)
  | proj r l ih => exact ih mem
  | empty => exact .inl mem
  | cell l w r ihw ihr =>
    obtain memW | memR := List.mem_append.1 mem
    · exact (ihw memW).imp_left (List.mem_append_left _)
    · exact (ihr memR).imp_left (List.mem_append_right _)
  | hole => exact .inl mem

/-- Two plain substitutions may be exchanged if neither brings in the name of the other. -/
lemma plainSubst_comm (ne : x ≠ y) (outV : y ∉ v.freeVars) (outU : x ∉ u.freeVars) :
    (t.plainSubst x v).plainSubst y u = (t.plainSubst y u).plainSubst x v := by
  induction t with
  | var z =>
    by_cases eX : z = x
    · have hit : (var z).plainSubst x v = v := if_pos eX
      have miss : (var z).plainSubst y u = var z := if_neg fun eY => ne (eX.symm.trans eY)
      rw [hit, miss, hit, plainSubst_of_not_mem outV]
    · have miss : (var z).plainSubst x v = var z := if_neg eX
      by_cases eY : z = y
      · have hit : (var z).plainSubst y u = u := if_pos eY
        rw [miss, hit, plainSubst_of_not_mem outU]
      · have miss' : (var z).plainSubst y u = var z := if_neg eY
        rw [miss, miss', miss]
  | app f a ihf iha => simp only [plainSubst, ihf, iha]
  | abs z A b ih =>
    -- a binder of one of the names leaves the other substitution alone below it
    by_cases eX : z = x
    · subst eX
      rw [plainSubst_abs_self, plainSubst_abs_of_ne ne, plainSubst_abs_self]
    · by_cases eY : z = y
      · subst eY
        rw [plainSubst_abs_of_ne eX, plainSubst_abs_self, plainSubst_abs_self,
          plainSubst_abs_of_ne eX]
      · rw [plainSubst_abs_of_ne eX, plainSubst_abs_of_ne eY, plainSubst_abs_of_ne eY,
          plainSubst_abs_of_ne eX, ih]
  | proj r l ih => simp only [plainSubst, ih]
  | empty => rfl
  | cell l w r ihw ihr => simp only [plainSubst, ihw, ihr]
  | hole => rfl

/-- Substitution follows the plain rule, to the letter, wherever no binder of the term is a free
variable of what is put in, and so whenever this is closed. Hence closed terms may be put in one
after the other in any order. -/
theorem subst_follows_plain_rule :
    (∀ (x : String) (v t : Term), (∀ w ∈ v.freeVars, w ∉ t.binders) →
      t.subst x v = t.plainSubst x v) ∧
    (∀ (x : String) (v t : Term), v.closed → t.subst x v = t.plainSubst x v) ∧
    ∀ (x y : String) (v w t : Term), v.closed → w.closed → x ≠ y →
      (t.subst x v).subst y w = (t.subst y w).subst x v := by
  refine ⟨fun x v t => subst_eq_plainSubst, fun x v t => subst_eq_plainSubst_of_closed, ?_⟩
  intro x y v w t clV clW ne
  simp only [subst_eq_plainSubst_of_closed clV, subst_eq_plainSubst_of_closed clW]
  exact plainSubst_comm ne (closed_iff.1 clV y) (closed_iff.1 clW x)

/-- The replaced name is also that of a binder, and what is put in for it binds `y` again. -/
theorem subst_follows_plain_rule_shadowed :
    let A : Ty := .base "A"
    let b : Term := .app (.var "x") (.app (.abs "x" A (.var "x")) (.var "y"))
    let t : Term := .abs "y" A b
    let i : Term := .abs "y" A (.var "y")
    (∀ w ∈ (var "z").freeVars, w ∉ t.binders) ∧ i.closed ∧ Term.empty.closed ∧
      t.subst "x" (var "z") = t.plainSubst "x" (var "z") ∧
      t.subst "x" i = t.plainSubst "x" i ∧
      (b.subst "x" i).subst "y" empty = (b.subst "y" empty).subst "x" i := by
  intro A b t i
  have out : ∀ w ∈ (var "z").freeVars, w ∉ t.binders := by decide
  have clI : i.closed := by decide
  obtain ⟨apart, closed, comm⟩ := subst_follows_plain_rule
  exact ⟨out, clI, rfl, apart "x" _ t out, closed "x" i t clI,
    comm "x" "y" i empty b clI rfl (by decide)⟩

end Term

end RecordLambda
