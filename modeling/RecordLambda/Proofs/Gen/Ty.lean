import RecordLambda.Gen.Term
import RecordLambda.Proofs.Gen.Source

/-!
# Random types

What a random well-formed type is made of, and what the fields are that stand around the label of a
projection. Every property of them comes from these few facts: one that goes from the types of one
depth to those of the next holds of all random well-formed types, and one of the types of depth zero
holds of all fields around a label.
-/

namespace RecordLambda

namespace Vocabulary

open Gen

variable {voc : Vocabulary}

/-- A label in front changes nothing about the item. -/
lemma ensures_labelled {α : Type} {g : Gen α} {p : α → Prop} (each : g.Ensures p) :
    (voc.labelled g).Ensures fun f => p f.2 :=
  .bind_any fun _ => each.bind fun _ holds => .pure holds

/-- A random well-formed type is a ground type, a function type, or a record type with at most three
fields. -/
lemma ensures_wfTy_of {p : Nat → Ty → Prop} (base : ∀ d b, p d (.base b)) (empty : p 0 .empty)
    (arrow : ∀ d A B, p d A → p d B → p (d + 1) (.arrow A B))
    (record : ∀ d fs, fs.length ≤ 3 → (∀ f ∈ fs, p d f.2) → p (d + 1) (Ty.ofFields fs .empty))
    (d : Nat) : (voc.wfTy d).Ensures (p d) := by
  have ground (d : Nat) : voc.baseTy.Ensures (p d) := .bind_any fun b => .pure (base d b)
  induction d with
  | zero =>
    refine .bind_any fun won => ?_
    cases won with
    | true => exact ground 0
    | false => exact .pure empty
  | succ d ih =>
    refine (ensures_pick _).bind fun g mem => ?_
    simp only [List.mem_cons, List.not_mem_nil, or_false] at mem
    rcases mem with rfl | rfl | rfl
    · exact ground (d + 1)
    · exact ih.bind fun A pA => ih.bind fun B pB => .pure (arrow d A B pA pB)
    · refine (ensures_upTo 3).bind fun n le => ?_
      refine ((ensures_length_times n).and (ensures_times (ensures_labelled ih) n)).bind ?_
      intro fs ⟨len, all⟩
      exact .pure (record d fs (len ▸ le) all)

/-- At most one field, with the property. -/
def FewFields (q : String × Ty → Prop) (fs : List (String × Ty)) : Prop :=
  fs.length ≤ 1 ∧ ∀ f ∈ fs, q f

/-- What holds of few fields may be weakened for each. -/
lemma FewFields.imp {q q' : String × Ty → Prop} {fs : List (String × Ty)} (few : FewFields q fs)
    (imp : ∀ f, q f → q' f) : FewFields q' fs :=
  ⟨few.1, fun f mem => imp f (few.2 f mem)⟩

variable {p : Ty → Prop}

/-- The fields have labels from the list and types as they are made up without depth. -/
lemma ensures_fewFields_of (simple : (voc.wfTy 0).Ensures p) (labels : List String) :
    (fewFields labels voc).Ensures (FewFields fun f => f.1 ∈ labels ∧ p f.2) := by
  refine (ensures_upTo 1).bind fun n le => ?_
  have each : (do return (← pick labels, ← voc.wfTy 0) : Gen _).Ensures
      fun f => f.1 ∈ labels ∧ p f.2 :=
    (ensures_pick labels).bind fun l mem => simple.bind fun A holds => .pure ⟨mem, holds⟩
  refine ((ensures_length_times n).and (ensures_times each n)).mono ?_
  intro fs ⟨len, all⟩
  exact ⟨len ▸ le, all⟩

/-- Around a label there is at most one field on each side, and the one before it carries another
label. -/
lemma ensures_fieldsAround_of (simple : (voc.wfTy 0).Ensures p) :
    voc.fieldsAround.Ensures fun r =>
      FewFields (fun f => f.1 ≠ r.1 ∧ p f.2) r.2.1 ∧ FewFields (fun f => p f.2) r.2.2 := by
  refine .bind_any fun l => ?_
  have around (before : List (String × Ty)) (few : FewFields (fun f => f.1 ≠ l ∧ p f.2) before) :
      (do return (l, before, ← fewFields voc.labels voc) : Gen _).Ensures fun r =>
        FewFields (fun f => f.1 ≠ r.1 ∧ p f.2) r.2.1 ∧ FewFields (fun f => p f.2) r.2.2 :=
    (ensures_fewFields_of simple voc.labels).bind fun behind few' =>
      .pure ⟨few, few'.imp fun f both => both.2⟩
  dsimp only
  split
  · exact around [] ⟨Nat.zero_le 1, List.forall_mem_nil _⟩
  · refine (ensures_fewFields_of simple _).bind fun before few => around before (few.imp ?_)
    intro f ⟨other, holds⟩
    exact ⟨of_decide_eq_true (List.mem_filter.1 other).2, holds⟩

end Vocabulary

end RecordLambda
