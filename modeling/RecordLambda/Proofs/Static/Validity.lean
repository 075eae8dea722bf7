import RecordLambda.Proofs.Static.Concrete

/-!
# Validity

The type of a term is well formed, whatever the context declares: the rule of variables and the rule
of abstractions ask for it, and the other rules put types together or take them apart in ways that
keep it.
-/

namespace RecordLambda

namespace Typed

variable {Γ : Env} {t : Term} {T : Ty}

/-- The type of a term is well formed. -/
lemma wellFormed (ty : Typed Γ t T) : T.wellFormed = .ok true := by
  induction ty with
  | var _ wf => exact wf
  | app _ _ ihf _ => exact (Ty.wellFormed_arrow.1 ihf).2
  | abs wf _ ih => exact Ty.wellFormed_arrow.2 ⟨wf, ih⟩
  | proj _ sel ih => exact Ty.wellFormed_lookup ih sel
  | empty => rfl
  | cell _ _ recT _ ihv ihr => exact Ty.wellFormed_cell.2 ⟨ihv, recT, ihr⟩

/-- A term that is typed without declarations has no free variable. -/
lemma not_mem_freeVars (ty : Typed ∅ t T) (x : String) : x ∉ t.freeVars := by
  intro mem
  obtain ⟨U, get⟩ := ty.declared mem
  cases get

/-- A term that is typed without declarations has its type in every context. -/
lemma of_empty (ty : Typed ∅ t T) : Typed Γ t T :=
  ty.congr fun x mem => absurd mem (ty.not_mem_freeVars x)

end Typed

end RecordLambda
