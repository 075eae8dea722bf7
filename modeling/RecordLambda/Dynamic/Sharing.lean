import RecordLambda.Dynamic.Subst
import RecordLambda.Static.TypeMap

/-!
# Substitution on objects

Substitution in a graph goes from object to object. What it comes to for an object is noted by the
term that the object depicts, so of several objects for one term only the first is looked into, and
the others share its result. An object that would be replaced by one for the same term stays as it
is. New objects take the identities from a given number on.

Every result comes with the fact that it depicts the term with `v` put for `x`. This is what makes
the recursion end, since it goes on in the result of renaming a body.
-/

namespace RecordLambda

namespace Graph

/-- An object for the term `t` with `v` put for the free occurrences of `x`. -/
abbrev Replaced (x : String) (v t : Term) := { r : Graph // r.term = t.subst x v }

/-- Renaming keeps the size. -/
theorem Replaced.size_eq {y z : String} {t : Term} (r : Replaced y (.var z) t) :
    r.1.term.size = t.size := by
  rw [r.2, Term.size_subst_var]

/-- Where a substitution stands: the identity of the next new object, and the results noted for
terms, the latest first. -/
structure Notes (x : String) (v : Term) where
  next : Nat
  noted : List ((t : Term) × Replaced x v t)

namespace Notes

variable {x : String} {v t : Term}

/-- The result among those noted for a term. -/
def lookup (t : Term) : List ((t : Term) × Replaced x v t) → Option (Replaced x v t)
  | [] => none
  | ⟨t', r⟩ :: rest => if same : t' = t then some ⟨r.1, same ▸ r.2⟩ else lookup t rest

/-- A new object. -/
def make (s : Notes x v) (new : Nat → Graph) (right : ∀ i, (new i).term = t.subst x v) :
    Replaced x v t × Notes x v :=
  (⟨new s.next, right s.next⟩, { s with next := s.next + 1 })

/-- The object itself if its parts depict what they did before, and a new one otherwise. -/
def rebuild (s : Notes x v) (g : Graph) (new : Nat → Graph)
    (right : ∀ i, (new i).term = g.term.subst x v) : Replaced x v g.term × Notes x v :=
  if same : (new s.next).term = g.term then (⟨g, same.symm.trans (right s.next)⟩, s)
  else s.make new right

/-- The object itself if the result depicts the same term, and the result otherwise. -/
def settle (g : Graph) (r : Replaced x v g.term) : Replaced x v g.term :=
  if same : r.1.term = g.term then ⟨g, same.symm.trans r.2⟩ else r

/-- Settles on a result for an object and notes it. -/
def keep (g : Graph) : Replaced x v g.term × Notes x v → Replaced x v g.term × Notes x v
  | (r, s) => (settle g r, { s with noted := ⟨g.term, settle g r⟩ :: s.noted })

/-- The result noted for an object. Without one, what `go` comes to is settled on and noted. -/
def look (s : Notes x v) (g : Graph) (go : Unit → Replaced x v g.term × Notes x v) :
    Replaced x v g.term × Notes x v :=
  match lookup g.term s.noted with
  | some r => (r, s)
  | none => keep g (go ())

end Notes

/-- Visits a graph to put `w` for the free occurrences of `x` in it. -/
def visit (x : String) (w g : Graph) (s : Notes x w.term) :
    Replaced x w.term g.term × Notes x w.term :=
  s.look g fun _ =>
    match g with
    | var i y =>
      if hit : y = x then (⟨w, by rw [term, Term.subst_var, if_pos hit]⟩, s)
      else (⟨var i y, by rw [term, Term.subst_var, if_neg hit]⟩, s)
    | app i f a =>
      let f' := visit x w f s
      let a' := visit x w a f'.2
      a'.2.rebuild (app i f a) (app · f'.1 a'.1) fun _ => by
        rw [term, term, Term.subst_app, f'.1.2, a'.1.2]
    | abs i y A b =>
      if still : y = x ∨ x ∉ b.term.freeVars then
        (⟨abs i y A b, by rw [term, Term.subst_abs, if_pos still]⟩, s)
      else if capture : y ∈ w.term.freeVars then
        let z := fresh y (w.term.freeVars ++ b.term.freeVars ++ [x])
        -- the renaming is a run of its own, with nothing noted
        let b' := visit y (var s.next z) b ⟨s.next + 1, []⟩
        have size := Replaced.size_eq b'.1
        let r := visit x w b'.1 { s with next := b'.2.next }
        r.2.make (abs · z A r.1) fun _ => by
          rw [term, term, Term.subst_abs, if_neg still, if_pos capture, r.1.2, b'.1.2]; rfl
      else
        let r := visit x w b s
        r.2.make (abs · y A r.1) fun _ => by
          rw [term, term, Term.subst_abs, if_neg still, if_neg capture, r.1.2]
    | proj i r l =>
      let r' := visit x w r s
      r'.2.rebuild (proj i r l) (proj · r'.1 l) fun _ => by
        rw [term, term, Term.subst_proj, r'.1.2]
    | empty i => (⟨empty i, by rw [term, Term.subst_empty]⟩, s)
    | cell i l h r =>
      let h' := visit x w h s
      let r' := visit x w r h'.2
      r'.2.rebuild (cell i l h r) (cell · l h'.1 r'.1) fun _ => by
        rw [term, term, Term.subst_cell, h'.1.2, r'.1.2]
    | hole i => (⟨hole i, by rw [term, Term.subst_hole]⟩, s)
termination_by g.term.size
decreasing_by
  all_goals first
    | exact Nat.lt_of_le_of_lt (Nat.le_of_eq size) (by simp only [term, Term.size]; omega)
    | simp only [term, Term.size]; omega

/-- The graph with `w` put for the free occurrences of `x`, where new objects take the identities
from `next` on, and the next identity after that. -/
def subst (g : Graph) (x : String) (w : Graph) (next : Nat) : Graph × Nat :=
  let r := visit x w g ⟨next, []⟩
  (r.1, r.2.next)

end Graph

end RecordLambda
