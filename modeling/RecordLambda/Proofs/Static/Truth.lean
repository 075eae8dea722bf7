import RecordLambda.Proofs.Static.Position

/-!
# Types as propositions

An arrow is read as an implication, a record type as the conjunction of its fields, and a ground
type as whatever a valuation makes of it. The typing rules are sound for this reading: if the types
of the free variables of a term hold, so does the type of the term.

No valuation makes a type false without making one of the ground types in it false. So where the
type of a term does not hold, the context gives one of its free variables a type with such a ground
type in it; and a ground type has no term without variables. An induction on terms alone does not
come to this, since the type of a function that is applied may mention any ground type at all.
-/

namespace RecordLambda

/-- What a type says, if the ground types say what `v` has them say. -/
def Ty.Holds (v : String → Prop) : Ty → Prop
  | base b => v b
  | arrow A B => A.Holds v → B.Holds v
  | empty => True
  | cell _ A R => A.Holds v ∧ R.Holds v
  | hole => True

namespace Ty

variable {v : String → Prop} {T R A : Ty} {l : String}

/-- The fields of a type that holds hold. -/
lemma holds_lookup (holds : R.Holds v) (sel : R.lookup l = some A) : A.Holds v :=
  lookup_inherits (P := Holds v) id holds sel

/-- A type that does not hold has a ground type inside that does not hold. -/
lemma exists_base_of_not_holds (no : ¬T.Holds v) :
    ∃ (p : Position) (b : String), p.get? parts T = some (.base b) ∧ ¬v b := by
  induction T with
  | base b => exact ⟨[], b, rfl, no⟩
  | arrow A B _ ih =>
    obtain ⟨_, noB⟩ := Classical.not_imp.1 no
    obtain ⟨p, b, found, nob⟩ := ih noB
    exact ⟨1 :: p, b, found, nob⟩
  | empty => exact absurd trivial no
  | cell l A R ihA ihR =>
    by_cases holdsA : A.Holds v
    · obtain ⟨p, b, found, nob⟩ := ihR fun holdsR => no ⟨holdsA, holdsR⟩
      exact ⟨1 :: p, b, found, nob⟩
    · obtain ⟨p, b, found, nob⟩ := ihA holdsA
      exact ⟨0 :: p, b, found, nob⟩
  | hole => exact absurd trivial no

end Ty

namespace Typed

variable {Γ : Env} {t : Term} {T : Ty} {v : String → Prop} {b : String}

/-- The type of a term holds if the types of its free variables do. -/
lemma holds (ty : Typed Γ t T)
    (free : ∀ x ∈ t.freeVars, ∀ U, Γ.get? x = some U → U.Holds v) : T.Holds v := by
  induction ty with
  | var get _ => exact free _ (Term.mem_freeVars_var.2 rfl) _ get
  | app _ _ ihf iha =>
    exact ihf (fun x mem => free x (Term.mem_freeVars_app.2 (.inl mem)))
      (iha fun x mem => free x (Term.mem_freeVars_app.2 (.inr mem)))
  | @abs Γ y A _ _ _ _ ih =>
    intro holdsA
    apply ih
    intro x mem U get
    rw [OrderedMap.get?_insert] at get
    split at get
    · cases get
      exact holdsA
    · rename_i ne
      exact free x (Term.mem_freeVars_abs.2 ⟨mem, ne⟩) U get
  | proj _ sel ih => exact Ty.holds_lookup (ih free) sel
  | empty => exact trivial
  | cell _ _ _ _ ihv ihr =>
    exact ⟨ihv fun x mem => free x (Term.mem_freeVars_cell.2 (.inl mem)),
      ihr fun x mem => free x (Term.mem_freeVars_cell.2 (.inr mem))⟩

/-- A ground type that a term has is found in the type of one of its free variables. -/
lemma exists_base (ty : Typed Γ t (.base b)) :
    ∃ x ∈ t.freeVars, ∃ (U : Ty) (p : Position),
      Γ.get? x = some U ∧ p.get? Ty.parts U = some (.base b) := by
  by_contra none
  -- all ground types but this one are true
  refine ty.holds (v := (· ≠ b)) ?_ rfl
  intro x mem U get
  by_contra no
  obtain ⟨p, c, found, eq⟩ := Ty.exists_base_of_not_holds no
  cases not_not.1 eq
  exact none ⟨x, mem, U, p, get, found⟩

end Typed

end RecordLambda
