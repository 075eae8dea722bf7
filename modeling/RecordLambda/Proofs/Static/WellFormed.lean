import RecordLambda.Proofs.Static.Position

/-!
# Well-formed types

The search for what is wrong with a type follows the spine of a chain and stops at the first thing
that it finds. On concrete types it decides two notions that know nothing of this order:

- `Ty.formed`, by recursion: a cell is well formed if its field and its rest are, and the rest is
  shaped like a record type;
- all chains end in the empty record type. A chain begins at a cell that is not the rest of another
  one, `Ty.Chain`, and may stand anywhere in the type.
-/

namespace RecordLambda

namespace Ty

/-- Well-formedness by recursion, the rest of a cell being judged as a type of its own. -/
def formed : Ty → Bool
  | base _ | empty => true
  | arrow A B => A.formed && B.formed
  | cell _ A R => A.formed && R.formed && R.isRecord
  | hole => false

/-- A cell of a record type. -/
def isCell : Ty → Bool
  | cell .. => true
  | _ => false

/-- A chain of cells begins at the position with the cell `C`, which is not the rest of another
cell. -/
structure Chain (T : Ty) (p : Position) (C : Ty) : Prop where
  found : p.get? parts T = some C
  cell : C.isCell
  first : ∀ (q : Position) D, p = q ++ [1] → q.get? parts T = some D → D.isCell = false

variable {A B C R T : Ty} {l : String} {p : Position}

/-! ## The search -/

/-- An arrow is well formed if its sides are. -/
lemma wellFormed_arrow :
    (arrow A B).wellFormed = .ok true ↔ A.wellFormed = .ok true ∧ B.wellFormed = .ok true := by
  simp only [wellFormed, bind_eq_ok_iff]
  constructor
  · rintro ⟨a, eqA, b, eqB, both⟩
    obtain ⟨rfl, rfl⟩ := Bool.and_eq_true_iff.1 (Except.ok.inj both)
    exact ⟨eqA, eqB⟩
  · rintro ⟨eqA, eqB⟩
    exact ⟨true, eqA, true, eqB, rfl⟩

/-- A cell is well formed if its field and its rest are and the rest is a record type. -/
lemma wellFormed_cell :
    (cell l A R).wellFormed = .ok true ↔
      A.wellFormed = .ok true ∧ R.isRecord ∧ R.wellFormed = .ok true := by
  simp only [wellFormed, bind_eq_ok_iff]
  constructor
  · rintro ⟨_ | _, eqA, eq⟩
    · cases eq
    · cases rec : R.isRecord with
      | false => rw [rec] at eq; cases eq
      | true => rw [rec] at eq; exact ⟨eqA, rfl, eq⟩
  · rintro ⟨eqA, rec, eqR⟩
    refine ⟨true, eqA, ?_⟩
    rw [rec]
    exact eqR

/-- A well-formed type has no hole, since the search for one looks everywhere. -/
lemma concrete_of_wellFormed (wf : T.wellFormed = .ok true) : T.concrete := by
  induction T with
  | base x => rfl
  | arrow A B ihA ihB =>
    obtain ⟨wfA, wfB⟩ := wellFormed_arrow.1 wf
    exact concrete_arrow.2 ⟨ihA wfA, ihB wfB⟩
  | empty => rfl
  | cell l A R ihA ihR =>
    obtain ⟨wfA, _, wfR⟩ := wellFormed_cell.1 wf
    exact concrete_cell.2 ⟨ihA wfA, ihR wfR⟩
  | hole => cases wf

/-- A field of a well-formed record type is well formed. -/
lemma wellFormed_lookup (wf : R.wellFormed = .ok true) (sel : R.lookup l = some A) :
    A.wellFormed = .ok true := by
  refine lookup_inherits (P := fun T => T.wellFormed = .ok true) ?_ wf sel
  intro l A R wf
  obtain ⟨wfA, _, wfR⟩ := wellFormed_cell.1 wf
  exact ⟨wfA, wfR⟩

/-! ## By recursion -/

/-- On a concrete type the search comes to an answer, and it is the one by recursion. -/
lemma wellFormed_eq_formed (con : T.concrete) : T.wellFormed = .ok T.formed := by
  induction T with
  | base x => rfl
  | arrow A B ihA ihB =>
    obtain ⟨conA, conB⟩ := concrete_arrow.1 con
    rw [wellFormed, ihA conA, ihB conB]
    rfl
  | empty => rfl
  | cell l A R ihA ihR =>
    obtain ⟨conA, conR⟩ := concrete_cell.1 con
    rw [wellFormed, ihA conA, ihR conR, formed]
    -- the search stops at an ill-formed field, and then at the shape of the rest
    cases A.formed with
    | false => rfl
    | true =>
      cases R.isRecord with
      | false =>
        rw [Bool.and_false]
        rfl
      | true =>
        rw [Bool.and_true]
        rfl
  | hole => cases con

/-- A cell is formed if its field and its rest are and the rest is a record type. -/
lemma formed_cell : (cell l A R).formed ↔ A.formed ∧ R.formed ∧ R.isRecord := by
  rw [formed, Bool.and_eq_true, Bool.and_eq_true, and_assoc]

/-- The parts of a type that is formed are formed. -/
lemma formed_of_mem_parts (wf : T.formed) (mem : A ∈ T.parts) : A.formed := by
  cases T with
  | arrow B C =>
    obtain ⟨wfB, wfC⟩ := Bool.and_eq_true_iff.1 wf
    simp only [parts, List.mem_cons, List.not_mem_nil, or_false] at mem
    obtain rfl | rfl := mem
    · exact wfB
    · exact wfC
  | cell l B R =>
    obtain ⟨wfB, wfR, _⟩ := formed_cell.1 wf
    simp only [parts, List.mem_cons, List.not_mem_nil, or_false] at mem
    obtain rfl | rfl := mem
    · exact wfB
    · exact wfR
  | _ => cases mem

/-! ## By chains -/

/-- The chain of a record type that is formed ends in the empty one. -/
lemma chainEnd_of_formed (wf : T.formed) (rec : T.isRecord) : T.chainEnd = .empty := by
  induction T with
  | empty => rfl
  | cell l A R _ ihR =>
    obtain ⟨_, wfR, recR⟩ := formed_cell.1 wf
    exact ihR wfR recR
  | _ => cases rec

/-- A cell is a record type. -/
lemma isRecord_of_isCell (cell : C.isCell) : C.isRecord := by
  cases C with
  | cell l A R => rfl
  | _ => cases cell

/-- A chain that ends in the empty record type is a record type. -/
lemma isRecord_of_chainEnd (eq : R.chainEnd = .empty) : R.isRecord := by
  cases R with
  | empty => rfl
  | cell l A R => rfl
  | _ => cases eq

/-- If from all cells on the chain ends in the empty record type, the type is well formed. -/
lemma formed_of_chainEnd (con : T.concrete)
    (ends : ∀ (p : Position) C, p.get? parts T = some C → C.isCell → C.chainEnd = .empty) :
    T.formed := by
  induction T with
  | base x => rfl
  | arrow A B ihA ihB =>
    obtain ⟨conA, conB⟩ := concrete_arrow.1 con
    have wfA : A.formed := ihA conA fun p => ends (0 :: p)
    have wfB : B.formed := ihB conB fun p => ends (1 :: p)
    exact Bool.and_eq_true_iff.2 ⟨wfA, wfB⟩
  | empty => rfl
  | cell l A R ihA ihR =>
    obtain ⟨conA, conR⟩ := concrete_cell.1 con
    have wfA : A.formed := ihA conA fun p => ends (0 :: p)
    have wfR : R.formed := ihR conR fun p => ends (1 :: p)
    have endR : R.chainEnd = .empty := ends [] (cell l A R) rfl rfl
    exact formed_cell.2 ⟨wfA, wfR, isRecord_of_chainEnd endR⟩
  | hole => cases con

/-- Every cell belongs to a chain that begins at it or above it, and that ends where the cells from
this one on end. -/
lemma exists_chain (found : p.get? parts T = some C) (cell : C.isCell) :
    ∃ q D, T.Chain q D ∧ D.chainEnd = C.chainEnd := by
  induction p using List.reverseRecOn generalizing C with
  | nil =>
    refine ⟨[], C, ⟨found, cell, ?_⟩, rfl⟩
    intro q D eq
    simp at eq
  | append_singleton p i ih =>
    obtain ⟨D, above, found'⟩ := Option.bind_eq_some_iff.1 (Position.get?_append p [i] T ▸ found)
    by_cases rest : i = 1 ∧ D.isCell
    · obtain ⟨rfl, cellD⟩ := rest
      obtain ⟨q, E, chain, eq⟩ := ih above cellD
      refine ⟨q, E, chain, ?_⟩
      cases D with
      | cell l A R =>
        cases found'
        exact eq
      | _ => cases cellD
    · refine ⟨p ++ [i], C, ⟨found, cell, ?_⟩, rfl⟩
      intro q E eq above'
      obtain ⟨rfl, rfl⟩ := List.append_singleton_inj.1 eq
      cases above.symm.trans above'
      exact Bool.eq_false_iff.2 fun cellD => rest ⟨rfl, cellD⟩

/-- A concrete type is well formed just if all its chains end in the empty record type. -/
lemma formed_iff_chains (con : T.concrete) :
    T.formed ↔ ∀ p C, T.Chain p C → C.chainEnd = .empty := by
  constructor
  · intro wf p C chain
    have wfC : C.formed :=
      Position.inherits (P := fun T => T.formed) formed_of_mem_parts wf chain.found
    exact chainEnd_of_formed wfC (isRecord_of_isCell chain.cell)
  · intro ends
    apply formed_of_chainEnd con
    intro p C found cell
    obtain ⟨q, D, chain, eq⟩ := exists_chain found cell
    rw [← eq]
    exact ends q D chain

end Ty

end RecordLambda
