import RecordLambda.Dynamic.Step
import RecordLambda.Proofs.Static.Typed
import Mathlib.Data.List.Forall2

/-!
# Canonical forms

A typed record and its type have the same shape: the same labels in the same order, repeated ones
included, and the empty record at the end of both. So the first cell that carries a label is found
at the same place in both, and what it holds in the record has the type that it holds in the type.
This needs no value: it goes for records of any terms, in any context.

A value with a type is an abstraction of a function type or a record of a record type. Nothing else
is left, since a variable is no value; in particular a ground type has no values.
-/

namespace RecordLambda

namespace Typed

variable {Γ : Env} {t : Term} {A T : Ty} {l : String}

/-! ## Records -/

/-- The cells of a record and of its type correspond one by one. -/
lemma forall₂_fields (ty : Typed Γ t T) (rec : t.isRecord) :
    List.Forall₂ (fun c C => c.1 = C.1 ∧ Typed Γ c.2 C.2) t.fields T.fields := by
  induction ty with
  | empty => exact .nil
  | cell tyV _ _ recR _ ihr =>
    apply List.Forall₂.cons
    · exact ⟨rfl, tyV⟩
    · exact ihr recR
  | _ => cases rec

/-- The chain of a record that has a type ends in the empty record, and so does that of the type. -/
lemma chainEnd_eq (ty : Typed Γ t T) (rec : t.isRecord) :
    t.chainEnd = .empty ∧ T.chainEnd = .empty := by
  induction ty with
  | empty => exact ⟨rfl, rfl⟩
  | cell _ _ _ recR _ ihr => exact ihr recR
  | _ => cases rec

/-- A label selects a value in a record just if it selects the type of that value in the type. -/
lemma lookup_eq_some_iff (ty : Typed Γ t T) (rec : t.isRecord) :
    T.lookup l = some A ↔ ∃ v, t.lookup l = some v ∧ Typed Γ v A := by
  induction ty with
  | empty =>
    constructor
    · intro sel
      cases sel
    · intro ⟨v, sel, _⟩
      cases sel
  | @cell Γ l' v r B R tyV _ _ recR _ ihr =>
    rw [Ty.lookup, Term.lookup]
    by_cases e : l' = l
    · rw [if_pos e, if_pos e]
      constructor
      · intro sel
        cases sel
        exact ⟨v, rfl, tyV⟩
      · intro ⟨w, sel, tyW⟩
        cases sel
        rw [tyV.unique tyW]
    · rw [if_neg e, if_neg e]
      exact ihr recR
  | _ => cases rec

/-! ## Values -/

/-- A value with a type is an abstraction with an arrow or a record with a record type. -/
lemma canonical (ty : Typed Γ t T) (vl : t.isValue) :
    (∃ x A b B, t = .abs x A b ∧ T = .arrow A B) ∨ (t.isRecord ∧ T.isRecord) := by
  cases ty with
  | abs _ _ => exact .inl ⟨_, _, _, _, rfl, rfl⟩
  | empty => exact .inr ⟨rfl, rfl⟩
  | cell _ _ _ _ => exact .inr ⟨rfl, rfl⟩
  | _ => cases vl

end Typed

namespace Term

/-- A typed record lines up with its type cell by cell, and a label selects in the type the type of
what it selects in the record. A typed value is an abstraction of a function type or a record of a
record type, and so never of a ground type. -/
theorem hasType_canonical {Γ : Env} {t : Term} {T : Ty} (ty : t.hasType Γ = .ok (some T)) :
    (t.isRecord →
      t.fields.map Prod.fst = T.fields.map Prod.fst ∧
      List.Forall₂ (fun c C => c.2.hasType Γ = .ok (some C.2)) t.fields T.fields ∧
      t.chainEnd = .empty ∧ T.chainEnd = .empty ∧
      ∀ l A, T.lookup l = some A ↔ ∃ v, t.lookup l = some v ∧ v.hasType Γ = .ok (some A)) ∧
    (t.isValue →
      ((∃ x A b B, t = .abs x A b ∧ T = .arrow A B) ∨ (t.isRecord ∧ T.isRecord)) ∧
      ∀ b, T ≠ .base b) := by
  have ty := hasType_eq_some_iff.1 ty
  simp only [hasType_eq_some_iff]
  constructor
  · intro rec
    have cells := ty.forall₂_fields rec
    obtain ⟨endt, endT⟩ := ty.chainEnd_eq rec
    refine ⟨?_, ?_, endt, endT, ?_⟩
    · rw [← List.forall₂_eq_eq_eq, List.forall₂_map_left_iff, List.forall₂_map_right_iff]
      apply cells.imp
      intro c C both
      exact both.1
    · apply cells.imp
      intro c C both
      exact both.2
    · intro l A
      exact ty.lookup_eq_some_iff rec
  · intro vl
    have canon := ty.canonical vl
    refine ⟨canon, ?_⟩
    intro b e
    subst e
    obtain ⟨x, A, b, B, _, e⟩ | ⟨_, rec⟩ := canon
    · cases e
    · cases rec

/-- The second cell carries the label of the first one and is never selected. The record is no
value, and its first cell holds one. -/
theorem hasType_canonical_repeated :
    let A : Ty := .base "A"
    let Γ : Env := OrderedMap.ofList [("y", A)]
    let v : Term := .abs "x" A (.var "x")
    let t : Term := .cell "a" v (.cell "a" (.var "y") .empty)
    let T : Ty := .cell "a" (.arrow A A) (.cell "a" A .empty)
    t.hasType Γ = .ok (some T) ∧ t.isRecord ∧ T.lookup "a" = some (.arrow A A) ∧
      (∃ w, t.lookup "a" = some w ∧ w.hasType Γ = .ok (some (.arrow A A))) ∧
      v.hasType Γ = .ok (some (.arrow A A)) ∧ v.isValue ∧ ∀ b, Ty.arrow A A ≠ .base b := by
  intro A Γ v t T
  have ty : t.hasType Γ = .ok (some T) := rfl
  have tyV : v.hasType Γ = .ok (some (.arrow A A)) := rfl
  have sel : T.lookup "a" = some (.arrow A A) := rfl
  obtain ⟨-, -, -, -, selects⟩ := (hasType_canonical ty).1 rfl
  obtain ⟨-, noBase⟩ := (hasType_canonical tyV).2 rfl
  exact ⟨ty, rfl, sel, (selects "a" _).1 sel, tyV, rfl, noBase⟩

end Term

end RecordLambda
