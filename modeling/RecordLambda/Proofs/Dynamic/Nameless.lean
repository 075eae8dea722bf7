import RecordLambda.Proofs.Dynamic.Subst

/-!
# Nameless terms

In a nameless term a bound variable is the number of binders between it and its own binder, and a
free variable keeps its name. Terms that differ in the names of their binders only have the same
nameless form, so it is what says that a substitution is right: `Term.nameless_subst` compares
`Term.subst` with the substitution of nameless terms, which has no names to confuse.

A term is translated below a list of binders, the innermost first. Two facts carry the comparison:

- `Substituted.nameless_rename`: putting a variable for a variable only changes what the leaves are
  called, so a renamed body under the new binder is the body under the old one;
- `Substituted.nameless_eq`: below binders that neither catch `x` nor a free variable of `v`, the
  rules of substitution do what nameless substitution does.

It also tells when a substitution changes nothing: in a nameless term there is no renaming that
could undo a replacement, `Nameless.eq_free_of_subst_eq`.
-/

namespace RecordLambda

/-- Terms without names for bound variables. -/
inductive Nameless where
  /-- The variable of the binder with `index` binders in between. -/
  | bound (index : Nat)
  | free (name : String)
  | app (fn arg : Nameless)
  | abs (dom : Ty) (body : Nameless)
  | proj (record : Nameless) (label : String)
  | empty
  | cell (label : String) (value rest : Nameless)
  | hole
deriving DecidableEq

namespace Nameless

/-- Makes room for one more binder outside of the innermost `k` ones. -/
def lift (k : Nat) : Nameless → Nameless
  | bound i => bound (if i < k then i else i + 1)
  | free x => free x
  | app f a => app (f.lift k) (a.lift k)
  | abs A b => abs A (b.lift (k + 1))
  | proj r l => proj (r.lift k) l
  | empty => empty
  | cell l v r => cell l (v.lift k) (r.lift k)
  | hole => hole

/-- Puts `u` for the free name `x`. Below a binder `u` makes room for it. -/
def subst : Nameless → String → Nameless → Nameless
  | bound i, _, _ => bound i
  | free y, x, u => if y = x then u else free y
  | app f a, x, u => app (f.subst x u) (a.subst x u)
  | abs A b, x, u => abs A (b.subst x (u.lift 0))
  | proj r l, x, u => proj (r.subst x u) l
  | empty, _, _ => empty
  | cell l v r, x, u => cell l (v.subst x u) (r.subst x u)
  | hole, _, _ => hole

/-- The free names, once for each occurrence and from left to right. -/
def names : Nameless → List String
  | bound _ | empty | hole => []
  | free x => [x]
  | app f a => f.names ++ a.names
  | abs _ b => b.names
  | proj r _ => r.names
  | cell _ v r => v.names ++ r.names

/-- To count one more binder keeps the free names. -/
lemma names_lift (k : Nat) (u : Nameless) : (u.lift k).names = u.names := by
  induction u generalizing k with
  | app f a ihf iha => rw [lift, names, ihf, iha, names]
  | abs A b ih => rw [lift, names, ih, names]
  | proj r l ih => rw [lift, names, ih, names]
  | cell l v r ihv ihr => rw [lift, names, ihv, ihr, names]
  | _ => rfl

/-- Every occurrence of `x` gives way to all the free names of `u`, none of them being caught. -/
lemma names_subst (x : String) (u t : Nameless) :
    (t.subst x u).names = t.names.flatMap fun y => if y = x then u.names else [y] := by
  induction t generalizing u with
  | bound i => rfl
  | free y =>
    simp only [subst, names, List.flatMap_singleton]
    split <;> rfl
  | app f a ihf iha => rw [subst, names, ihf, iha, names, List.flatMap_append]
  | abs A b ih => rw [subst, names, ih, names_lift, names]
  | proj r l ih => rw [subst, names, ih, names]
  | empty => rfl
  | cell l v r ihv ihr => rw [subst, names, ihv, ihr, names, List.flatMap_append]
  | hole => rfl

/-- A name that is not there is not replaced. -/
lemma subst_of_not_mem {x : String} {u t : Nameless} (out : x ∉ t.names) : t.subst x u = t := by
  induction t generalizing u with
  | free y =>
    have ne : y ≠ x := fun e => out (e ▸ List.mem_singleton_self y)
    rw [subst, if_neg ne]
  | app f a ihf iha =>
    obtain ⟨outF, outA⟩ := not_or.1 (mt List.mem_append.2 out)
    rw [subst, ihf outF, iha outA]
  | abs A b ih => rw [subst, ih out]
  | proj r l ih => rw [subst, ih out]
  | cell l v r ihv ihr =>
    obtain ⟨outV, outR⟩ := not_or.1 (mt List.mem_append.2 out)
    rw [subst, ihv outV, ihr outR]
  | _ => rfl

/-- Only a free name is lifted to a free name. -/
lemma eq_free_of_lift_eq {k : Nat} {u : Nameless} {x : String} (eq : u.lift k = free x) :
    u = free x := by
  cases u with
  | free y => exact eq
  | _ => cases eq

/-- If a name that is there is replaced and nothing changes, it was replaced by itself. -/
lemma eq_free_of_subst_eq {x : String} {u t : Nameless} (mem : x ∈ t.names)
    (eq : t.subst x u = t) : u = free x := by
  -- one occurrence is enough, and on the way down to it `u` only makes room for binders
  induction t generalizing u with
  | free y =>
    cases List.mem_singleton.1 mem
    rwa [subst, if_pos rfl] at eq
  | app f a ihf iha =>
    obtain ⟨eqF, eqA⟩ := app.inj eq
    obtain memF | memA := List.mem_append.1 mem
    · exact ihf memF eqF
    · exact iha memA eqA
  | abs A b ih =>
    apply eq_free_of_lift_eq
    exact ih mem (abs.inj eq).2
  | proj r l ih => exact ih mem (proj.inj eq).1
  | cell l v r ihv ihr =>
    obtain ⟨_, eqV, eqR⟩ := cell.inj eq
    obtain memV | memR := List.mem_append.1 mem
    · exact ihv memV eqV
    · exact ihr memR eqR
  | _ => cases mem

/-! ## Leaves -/

/-- A name below the binders `ρ`. -/
def ofName (ρ : List String) (x : String) : Nameless :=
  match ρ.idxOf? x with
  | some i => bound i
  | none => free x

/-- A name that no binder around it has is free. -/
lemma ofName_of_not_mem {ρ : List String} {x : String} (out : x ∉ ρ) : ofName ρ x = free x := by
  rw [ofName, List.idxOf?_eq_none_iff.2 out]

/-- The innermost binder of a name is the one that counts. -/
lemma ofName_cons (y : String) (ρ : List String) (x : String) :
    ofName (y :: ρ) x = if y = x then bound 0 else (ofName ρ x).lift 0 := by
  simp only [ofName, List.idxOf?_cons, beq_iff_eq]
  by_cases e : y = x
  · rw [if_pos e, if_pos e]
  · rw [if_neg e, if_neg e]
    cases ρ.idxOf? x <;> rfl

/-- The name of the innermost binder stands for this binder. -/
lemma ofName_cons_self (y : String) (ρ : List String) : ofName (y :: ρ) y = bound 0 := by
  rw [ofName_cons, if_pos rfl]

/-- Leaves that are the same stay so below binders that catch neither of them. -/
lemma ofName_cons_congr {ρ σ : List String} {x y x' y' : String}
    (eq : ofName ρ x = ofName σ x') (ne : y ≠ x) (ne' : y' ≠ x') :
    ofName (y :: ρ) x = ofName (y' :: σ) x' := by
  rw [ofName_cons, ofName_cons, if_neg ne, if_neg ne', eq]

/-- Below a binder that is neither the old nor the new name, a renamed leaf is what it was if it was
so above. -/
lemma ofName_cons_rename {ρ σ : List String} {u w y z : String} (neY : u ≠ y) (neZ : u ≠ z)
    (same : w ≠ u → ofName σ (if w = y then z else w) = ofName ρ w) :
    ofName (u :: σ) (if w = y then z else w) = ofName (u :: ρ) w := by
  by_cases hit : w = u
  · rw [hit, if_neg neY, ofName_cons_self, ofName_cons_self]
  · apply ofName_cons_congr (same hit) _ (Ne.symm hit)
    split
    · exact neZ
    · exact Ne.symm hit

/-- A binder and its leaves may be renamed together. -/
lemma ofName_cons_rename_self {ρ : List String} {w y z : String} (ne : w ≠ z) :
    ofName (z :: ρ) (if w = y then z else w) = ofName (y :: ρ) w := by
  by_cases hit : w = y
  · rw [if_pos hit, hit, ofName_cons_self, ofName_cons_self]
  · rw [if_neg hit]
    exact ofName_cons_congr rfl (Ne.symm ne) (Ne.symm hit)

end Nameless

/-! ## Translation -/

namespace Term

open Nameless (ofName ofName_cons ofName_cons_self ofName_cons_congr ofName_of_not_mem)

/-- The nameless form of a term below the binders `ρ`, the innermost first. -/
def nameless (ρ : List String) : Term → Nameless
  | var x => ofName ρ x
  | app f a => .app (f.nameless ρ) (a.nameless ρ)
  | abs x A b => .abs A (b.nameless (x :: ρ))
  | proj r l => .proj (r.nameless ρ) l
  | empty => .empty
  | cell l v r => .cell l (v.nameless ρ) (r.nameless ρ)
  | hole => .hole

/-- The binders matter only for the free variables. -/
lemma nameless_congr {t : Term} {ρ σ : List String}
    (same : ∀ w ∈ t.freeVars, ofName ρ w = ofName σ w) : t.nameless ρ = t.nameless σ := by
  induction t generalizing ρ σ with
  | var x => exact same x (mem_freeVars_var.2 rfl)
  | app f a ihf iha =>
    rw [nameless, nameless, ihf fun w mem => same w (mem_freeVars_app.2 (.inl mem)),
      iha fun w mem => same w (mem_freeVars_app.2 (.inr mem))]
  | abs x A b ih =>
    rw [nameless, nameless, ih]
    intro w mem
    by_cases e : w = x
    · rw [e, ofName_cons_self, ofName_cons_self]
    · exact ofName_cons_congr (same w (mem_freeVars_abs.2 ⟨mem, e⟩)) (Ne.symm e) (Ne.symm e)
  | proj r l ih => rw [nameless, nameless, ih same]
  | empty => rfl
  | cell l v r ihv ihr =>
    rw [nameless, nameless, ihv fun w mem => same w (mem_freeVars_cell.2 (.inl mem)),
      ihr fun w mem => same w (mem_freeVars_cell.2 (.inr mem))]
  | hole => rfl

/-- The free names of the nameless form are the free variables that no binder catches. -/
lemma names_nameless (t : Term) (ρ : List String) :
    (t.nameless ρ).names = t.freeVars.filter (· ∉ ρ) := by
  induction t generalizing ρ with
  | var x =>
    by_cases mem : x ∈ ρ
    · obtain ⟨i, eq⟩ := Option.isSome_iff_exists.1 (List.isSome_idxOf?.2 mem)
      simp [nameless, ofName, eq, Nameless.names, freeVars, mem]
    · simp [nameless, ofName_of_not_mem mem, Nameless.names, freeVars, mem]
  | app f a ihf iha => rw [nameless, Nameless.names, ihf, iha, freeVars, List.filter_append]
  | abs x A b ih =>
    rw [nameless, Nameless.names, ih, freeVars, List.filter_filter]
    congr 1
    funext w
    simp [Bool.and_comm]
  | proj r l ih => rw [nameless, Nameless.names, ih, freeVars]
  | empty => rfl
  | cell l v r ihv ihr => rw [nameless, Nameless.names, ihv, ihr, freeVars, List.filter_append]
  | hole => rfl

/-- A term without names has the free variables of the term as free names. -/
lemma names_nameless_nil (t : Term) : (t.nameless []).names = t.freeVars := by
  rw [names_nameless]
  simp

/-- All indices point to binders in the term or in `ρ`, so there is nothing to make room for. -/
lemma lift_nameless {t : Term} {ρ : List String} {k : Nat} (le : ρ.length ≤ k) :
    (t.nameless ρ).lift k = t.nameless ρ := by
  induction t generalizing ρ k with
  | var x =>
    rw [nameless, ofName]
    cases eq : ρ.idxOf? x with
    | none => rfl
    | some i =>
      obtain ⟨lt, _⟩ := List.idxOf?_eq_some_iff.1 eq
      rw [Nameless.lift, if_pos (Nat.lt_of_lt_of_le lt le)]
  | app f a ihf iha => rw [nameless, Nameless.lift, ihf le, iha le]
  | abs x A b ih => rw [nameless, Nameless.lift, ih (Nat.succ_le_succ le)]
  | proj r l ih => rw [nameless, Nameless.lift, ih le]
  | empty => rfl
  | cell l v r ihv ihr => rw [nameless, Nameless.lift, ihv le, ihr le]
  | hole => rfl

end Term

/-! ## Substitution -/

namespace Substituted

open Term Nameless

variable {x y z : String} {v t r : Term} {ρ σ : List String}

/-- Renaming changes nothing but what the leaves are called: if below `σ` every new name is the leaf
that the old one is below `ρ`, the nameless forms are the same. -/
lemma nameless_rename (sub : Substituted y (.var z) t r)
    (same : ∀ w ∈ t.freeVars, ofName σ (if w = y then z else w) = ofName ρ w) :
    r.nameless σ = t.nameless ρ := by
  generalize e : Term.var z = v at sub
  induction sub generalizing z ρ σ with
  | varHit =>
    subst e
    have hit := same _ (mem_freeVars_var.2 rfl)
    rwa [if_pos rfl] at hit
  | varMiss ne =>
    have miss := same _ (mem_freeVars_var.2 rfl)
    rwa [if_neg ne] at miss
  | app _ _ ihf iha =>
    rw [Term.nameless, Term.nameless, ihf (fun w mem => same w (mem_freeVars_app.2 (.inl mem))) e,
      iha (fun w mem => same w (mem_freeVars_app.2 (.inr mem))) e]
  | @absKeep y _ u A b out =>
    apply nameless_congr
    intro w mem
    have ne : w ≠ y := fun e => out (e ▸ mem)
    have leaf := same w mem
    rwa [if_neg ne] at leaf
  | @absRename y _ u u' A b b' r ne mem cap newV newB newX subB _ ihb ihr =>
    subst e
    rw [Term.nameless, Term.nameless]
    congr 1
    -- from the outside in: `y` becomes `z` below the new binder, then that binder was `u`
    trans b'.nameless (u' :: ρ)
    · apply ihr _ rfl
      intro w memW
      apply ofName_cons_rename newX fun e => newV (mem_freeVars_var.2 e)
      intro ne'
      obtain ⟨memB, neU⟩ | ⟨_, eqU⟩ := subB.mem_freeVars.1 memW
      · exact same w (mem_freeVars_abs.2 ⟨memB, neU⟩)
      · exact absurd (mem_freeVars_var.1 eqU) ne'
    · apply ihb _ rfl
      intro w memW
      exact ofName_cons_rename_self fun e => newB (e ▸ memW)
  | @absDown y _ u A b r ne mem out _ ih =>
    subst e
    rw [Term.nameless, Term.nameless, ih _ rfl]
    intro w memW
    apply ofName_cons_rename ne fun e => out (mem_freeVars_var.2 e)
    intro ne'
    exact same w (mem_freeVars_abs.2 ⟨memW, ne'⟩)
  | proj _ ih => rw [Term.nameless, Term.nameless, ih same e]
  | empty => rfl
  | cell _ _ ihw ihr =>
    rw [Term.nameless, Term.nameless, ihw (fun w mem => same w (mem_freeVars_cell.2 (.inl mem))) e,
      ihr (fun w mem => same w (mem_freeVars_cell.2 (.inr mem))) e]
  | hole => rfl

/-- Below binders that catch neither `x` nor a free variable of `v`, the rules of substitution do
what nameless substitution does. -/
lemma nameless_eq (sub : Substituted x v t r) (outX : x ∉ ρ) (outV : ∀ w ∈ v.freeVars, w ∉ ρ) :
    r.nameless ρ = (t.nameless ρ).subst x (v.nameless []) := by
  induction sub generalizing ρ with
  | @varHit x v =>
    have leaf : (Term.var x).nameless ρ = .free x := ofName_of_not_mem outX
    rw [leaf, Nameless.subst, if_pos rfl]
    apply nameless_congr
    intro w mem
    rw [ofName_of_not_mem (outV w mem), ofName_of_not_mem (List.not_mem_nil)]
  | @varMiss x v y ne =>
    refine (Nameless.subst_of_not_mem ?_).symm
    rw [names_nameless]
    intro mem
    exact ne (mem_freeVars_var.1 (List.mem_of_mem_filter mem)).symm
  | app _ _ ihf iha =>
    rw [Term.nameless, Term.nameless, Nameless.subst, ihf outX outV, iha outX outV]
  | absKeep out =>
    refine (Nameless.subst_of_not_mem ?_).symm
    rw [names_nameless]
    exact fun mem => out (List.mem_of_mem_filter mem)
  | @absRename x v y z A b b' r ne mem cap newV newB newX subB _ _ ihr =>
    have renamed : b'.nameless (z :: ρ) = b.nameless (y :: ρ) := by
      apply subB.nameless_rename
      intro w memW
      exact ofName_cons_rename_self fun e => newB (e ▸ memW)
    rw [Term.nameless, Term.nameless, Nameless.subst, lift_nameless (Nat.le_refl 0), ← renamed, ihr]
    · exact List.not_mem_cons_of_ne_of_not_mem (Ne.symm newX) outX
    · intro w mem
      exact List.not_mem_cons_of_ne_of_not_mem (fun e => newV (e ▸ mem)) (outV w mem)
  | @absDown x v y A b r ne mem out _ ih =>
    rw [Term.nameless, Term.nameless, Nameless.subst, lift_nameless (Nat.le_refl 0), ih]
    · exact List.not_mem_cons_of_ne_of_not_mem (Ne.symm ne) outX
    · intro w mem
      exact List.not_mem_cons_of_ne_of_not_mem (fun e => out (e ▸ mem)) (outV w mem)
  | proj _ ih => rw [Term.nameless, Term.nameless, Nameless.subst, ih outX outV]
  | empty => rfl
  | cell _ _ ihw ihr =>
    rw [Term.nameless, Term.nameless, Nameless.subst, ihw outX outV, ihr outX outV]
  | hole => rfl

end Substituted

namespace Term

/-- Substitution without binders around the term, with names and without. -/
lemma nameless_subst_nil (x : String) (v t : Term) :
    (t.subst x v).nameless [] = (t.nameless []).subst x (v.nameless []) :=
  (substituted_subst x v t).nameless_eq List.not_mem_nil fun _ _ => List.not_mem_nil

/-- Substitution is nameless substitution up to the names of binders. Its free variables, taken with
all their occurrences, are those of the term with the free variables of `v` in the place of each
occurrence of `x`; so none of these is captured, and `x` itself is gone unless `v` brings it in. -/
theorem nameless_subst (x : String) (v t : Term) :
    (t.subst x v).nameless [] = (t.nameless []).subst x (v.nameless []) ∧
      (t.subst x v).freeVars = (t.freeVars.flatMap fun y => if y = x then v.freeVars else [y]) ∧
      (x ∈ (t.subst x v).freeVars → x ∈ v.freeVars) := by
  refine ⟨nameless_subst_nil x v t, ?_, ?_⟩
  · rw [← names_nameless_nil, nameless_subst_nil, Nameless.names_subst, names_nameless_nil,
      names_nameless_nil]
  · intro mem
    obtain ⟨_, ne⟩ | ⟨_, memV⟩ := mem_freeVars_subst.1 mem
    · exact absurd rfl ne
    · exact memV

example (A : Ty) : (abs "y" A (app (var "x") (var "y"))).subst "x" (var "y") =
    abs "y'" A (app (var "y") (var "y'")) := by cbv

/-! ## When nothing changes -/

/-- Only the variable itself is its free name. -/
lemma eq_var_of_nameless_eq {x : String} {v : Term} (eq : v.nameless [] = .free x) :
    v = var x := by
  cases v with
  | var y =>
    have leaf : (var y).nameless [] = .free y := Nameless.ofName_of_not_mem List.not_mem_nil
    cases leaf.symm.trans eq
    rfl
  | _ => cases eq

/-- To substitute a variable for itself changes nothing. -/
lemma subst_var_self (x : String) (t : Term) : t.subst x (var x) = t := by
  induction t with
  | var y =>
    rw [subst_var]
    split
    case isTrue e => rw [e]
    case isFalse _ => rfl
  | app f a ihf iha => rw [subst_app, ihf, iha]
  | abs y A b ih =>
    rw [subst_abs]
    split
    case isTrue _ => rfl
    case isFalse go =>
      -- only a binder of `x` could capture, and below that there is nothing to replace
      have out : y ∉ (var x).freeVars := fun cap => go (.inl (mem_freeVars_var.1 cap))
      rw [if_neg out, ih]
  | proj r l ih => rw [subst_proj, ih]
  | empty => exact subst_empty x _
  | cell l v r ihv ihr => rw [subst_cell, ihv, ihr]
  | hole => exact subst_hole x _

/-- No other term that is put in, and no renaming on the way, makes up for a replacement. -/
lemma subst_fixes_iff {x : String} {v t : Term} :
    t.subst x v = t ↔ x ∉ t.freeVars ∨ v = var x := by
  constructor
  · intro eq
    by_cases mem : x ∈ t.freeVars
    · right
      apply eq_var_of_nameless_eq
      apply Nameless.eq_free_of_subst_eq
      · rw [names_nameless_nil]
        exact mem
      · rw [← nameless_subst_nil, eq]
    · exact .inl mem
  · rintro (out | rfl)
    · exact subst_of_not_mem out
    · exact subst_var_self x t

end Term

end RecordLambda
