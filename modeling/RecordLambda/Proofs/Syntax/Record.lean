import RecordLambda.Syntax.Record
import Mathlib.Tactic.Lemma

/-!
# Builders and views of chains

A chain is built from its end to its front and looked at from its front to its end. Building from
the labelled cells and the end of a chain gives the chain back, and a chain that was built shows the
cells it was built from before those of its rest. The rest may be a chain itself, or anything else.

Types and terms have chains alike. All that matters is how the views go on behind a cell, and that
what is no cell is an end; this is what `Chains` collects.
-/

namespace RecordLambda

variable {α : Type}

/-- Syntax with chains, and the views of them. -/
structure Chains (α : Type) where
  cell : String → α → α → α
  fields : α → List (String × α)
  chainEnd : α → α
  lookup : String → α → Option α
  fields_cell : ∀ l a r, fields (cell l a r) = (l, a) :: fields r
  chainEnd_cell : ∀ l a r, chainEnd (cell l a r) = chainEnd r
  lookup_cell : ∀ k l a r, lookup k (cell l a r) = if l = k then some a else lookup k r
  cell_or_end : ∀ c, (∃ l a r, c = cell l a r) ∨ (fields c = [] ∧ chainEnd c = c)

/-- The chains of types. -/
def Ty.chains : Chains Ty where
  cell := cell
  fields := fields
  chainEnd := chainEnd
  lookup := lookup
  fields_cell _ _ _ := rfl
  chainEnd_cell _ _ _ := rfl
  lookup_cell _ _ _ _ := rfl
  cell_or_end T := by
    cases T with
    | cell l A R => exact .inl ⟨l, A, R, rfl⟩
    | _ => exact .inr ⟨rfl, rfl⟩

/-- The chains of terms. -/
def Term.chains : Chains Term where
  cell := cell
  fields := fields
  chainEnd := chainEnd
  lookup := lookup
  fields_cell _ _ _ := rfl
  chainEnd_cell _ _ _ := rfl
  lookup_cell _ _ _ _ := rfl
  cell_or_end t := by
    cases t with
    | cell l v r => exact .inl ⟨l, v, r, rfl⟩
    | _ => exact .inr ⟨rfl, rfl⟩

namespace Chains

variable (C : Chains α)

/-- The chain of the labelled fields before `rest`. -/
def ofFields (fs : List (String × α)) (rest : α) : α :=
  fs.foldr (fun (l, a) r => C.cell l a r) rest

/-- What goes on behind a cell as the views do is a fold over the cells of a chain. -/
lemma eq_foldr {β : Type} (h : α → β) (step : String × α → β → β)
    (cell : ∀ l a r, h (C.cell l a r) = step (l, a) (h r)) (c : α) :
    h c = (C.fields c).foldr step (h (C.chainEnd c)) := by
  -- the syntax is not known to be inductive, but what it shows is a list
  induction eq : C.fields c generalizing c with
  | nil =>
    obtain ⟨l, a, r, rfl⟩ | ⟨_, atEnd⟩ := C.cell_or_end c
    · rw [C.fields_cell] at eq
      cases eq
    · rw [atEnd]
      rfl
  | cons f fs ih =>
    obtain ⟨l, a, r, rfl⟩ | ⟨none, _⟩ := C.cell_or_end c
    · rw [C.fields_cell] at eq
      obtain ⟨rfl, rfl⟩ := List.cons.inj eq
      rw [cell, C.chainEnd_cell]
      exact congrArg (step (l, a)) (ih r rfl)
    · rw [none] at eq
      cases eq

/-- A chain is put together again from its fields and its end. -/
lemma ofFields_fields (c : α) : C.ofFields (C.fields c) (C.chainEnd c) = c :=
  (C.eq_foldr id (fun f r => C.cell f.1 f.2 r) (fun _ _ _ => rfl) c).symm

/-- What grows with every cell is less for the fields of a chain, and for the end behind them. -/
lemma lt_of_view {μ : α → Nat} (head : ∀ l a r, μ a < μ (C.cell l a r))
    (tail : ∀ l a r, μ r < μ (C.cell l a r)) (c : α) :
    (∀ f ∈ C.fields c, μ f.2 < μ c) ∧ (C.fields c ≠ [] → μ (C.chainEnd c) < μ c) := by
  have built : ∀ fs e, (∀ f ∈ fs, μ f.2 < μ (C.ofFields fs e)) ∧ μ e ≤ μ (C.ofFields fs e) ∧
      (fs ≠ [] → μ e < μ (C.ofFields fs e)) := by
    intro fs e
    induction fs with
    | nil => exact ⟨List.forall_mem_nil _, Nat.le_refl _, fun no => absurd rfl no⟩
    | cons f fs ih =>
      obtain ⟨fields, le, _⟩ := ih
      have step : μ (C.ofFields fs e) < μ (C.ofFields (f :: fs) e) := tail f.1 f.2 _
      have lt := Nat.lt_of_le_of_lt le step
      refine ⟨List.forall_mem_cons.2 ⟨head f.1 f.2 _, ?_⟩, Nat.le_of_lt lt, fun _ => lt⟩
      intro f mem
      exact Nat.lt_trans (fields f mem) step
  obtain ⟨fields, _, last⟩ := built (C.fields c) (C.chainEnd c)
  rw [C.ofFields_fields] at fields last
  exact ⟨fields, last⟩

variable (fs : List (String × α)) (rest : α)

/-- The fields that are put in front come first. -/
lemma fields_ofFields : C.fields (C.ofFields fs rest) = fs ++ C.fields rest := by
  induction fs with
  | nil => rfl
  | cons f fs ih => exact (C.fields_cell f.1 f.2 _).trans (congrArg (f :: ·) ih)

/-- Fields in front do not change the end. -/
lemma chainEnd_ofFields : C.chainEnd (C.ofFields fs rest) = C.chainEnd rest := by
  induction fs with
  | nil => rfl
  | cons f fs ih => exact (C.chainEnd_cell f.1 f.2 _).trans ih

/-- The fields before the rest hide what it holds under their labels, and the first of them hides
the others. -/
lemma lookup_ofFields (k : String) :
    C.lookup k (C.ofFields fs rest) = (fs.lookup k).or (C.lookup k rest) := by
  induction fs with
  | nil => rfl
  | cons f fs ih =>
    refine (C.lookup_cell k f.1 f.2 _).trans ?_
    by_cases e : f.1 = k
    · rw [if_pos e, List.lookup_cons, e, beq_self_eq_true]
      rfl
    · have ne : (k == f.1) = false := beq_false_of_ne fun eq => e eq.symm
      rw [if_neg e, List.lookup_cons, ne]
      exact ih

end Chains

/-- Building and looking at chains are inverse. The labelled cells and the end of a term make the
term, and a term built from some fields and a rest shows the fields before those of the rest, ends
where the rest ends, and gives for a label the first of the fields with it, or else what the rest
gives. The same goes for types. -/
theorem ofFields_views_inverse :
    (∀ t : Term, Term.ofFields t.fields t.chainEnd = t) ∧
    (∀ T : Ty, Ty.ofFields T.fields T.chainEnd = T) ∧
    (∀ (fs : List (String × Term)) (r : Term),
      (Term.ofFields fs r).fields = fs ++ r.fields ∧
      (Term.ofFields fs r).chainEnd = r.chainEnd ∧
      ∀ l, (Term.ofFields fs r).lookup l = (fs.lookup l).or (r.lookup l)) ∧
    (∀ (fs : List (String × Ty)) (R : Ty),
      (Ty.ofFields fs R).fields = fs ++ R.fields ∧
      (Ty.ofFields fs R).chainEnd = R.chainEnd ∧
      ∀ l, (Ty.ofFields fs R).lookup l = (fs.lookup l).or (R.lookup l)) := by
  refine ⟨Term.chains.ofFields_fields, Ty.chains.ofFields_fields, ?_, ?_⟩
  · intro fs r
    exact ⟨Term.chains.fields_ofFields fs r, Term.chains.chainEnd_ofFields fs r,
      Term.chains.lookup_ofFields fs r⟩
  · intro fs R
    exact ⟨Ty.chains.fields_ofFields fs R, Ty.chains.chainEnd_ofFields fs R,
      Ty.chains.lookup_ofFields fs R⟩

/-- A label that comes twice before the rest and once in it, and a rest that ends in a variable. -/
example :
    let r : Term := .cell "a" .empty (.cell "b" .empty (.var "x"))
    let t := Term.ofFields [("a", .var "y"), ("a", .var "z")] r
    t.fields.map Prod.fst = ["a", "a", "a", "b"] ∧ t.chainEnd = .var "x" ∧
      t.lookup "a" = some (.var "y") ∧ t.lookup "b" = some .empty ∧ t.lookup "c" = none := by decide

end RecordLambda
