import RecordLambda.Gen.Term
import RecordLambda.Proofs.OrderedMap
import RecordLambda.Proofs.Static.Concrete
import RecordLambda.Proofs.Static.Position

/-!
# Types that clearly have a term

Where `Ty.inhabited` says so, there is a term of the type, with one exception. The rest of a cell
counts as inhabited if a variable has this record type, but a variable cannot stand there: the rest
has to be a record. Such a record can be put together from projections of the variable, as far as a
label selects each field; a field that is hidden by an earlier one with its label has to come from
elsewhere. So the answer still owes a term for the hidden fields of these rests, `Ty.owed`, and for
nothing else.

If there is no such term the answer is wrong. To see that a type has no term at all, types are read
as propositions once more, now with two readings of a record type: `Ty.Provided` is about any terms
of the type and `Ty.Built` about records of it, which need all the fields. Some record types may be
given, although a field that is hidden in them is not provided.
-/

namespace RecordLambda

namespace Ty

variable {Γ : Env} {A B R S T : Ty} {l : String} {r : Term} {seen : List String}

/-! ## What is owed -/

/-- Some variable has the type. -/
def declaredIn (T : Ty) (Γ : Env) : Bool := Γ.entries.any fun (_, U) => U == T

/-- The types of the fields that carry a label that was there before. -/
def hidden (seen : List String) : Ty → List Ty
  | cell l A R => (if l ∈ seen then [A] else []) ++ R.hidden (l :: seen)
  | _ => []

/-- The types that are taken to have a term in a context since a field of this type is hidden in the
declared rest of a cell. -/
def owed (T : Ty) (Γ : Env) : List (Env × Ty) :=
  if T.declaredIn Γ then [] else
    match T with
    | arrow A B => B.owed (Γ.insert "_" A)
    | cell _ A R =>
      A.owed Γ ++ (R.owed Γ ++ if R.declaredIn Γ then (R.hidden []).map (Γ, ·) else [])
    | _ => []

/-- A variable of the type is a term of the type. -/
lemma exists_var (wf : T.wellFormed = .ok true) (decl : T.declaredIn Γ) : ∃ t, Typed Γ t T := by
  obtain ⟨⟨x, U⟩, mem, eq⟩ := List.any_eq_true.1 decl
  cases eq_of_beq eq
  exact ⟨.var x, .var (OrderedMap.get?_of_mem mem) wf⟩

/-- A record of the type of `r` is put together from projections of `r`, and from other terms for
the hidden fields. -/
lemma exists_record (seen : List String) (tyR : Typed Γ r R) (wf : S.wellFormed = .ok true)
    (rec : S.isRecord) (agree : ∀ l ∉ seen, R.lookup l = S.lookup l)
    (had : ∀ A ∈ S.hidden seen, ∃ t, Typed Γ t A) : ∃ t, Typed Γ t S ∧ t.isRecord := by
  -- `S` is what is left of `R` behind the labels seen so far
  induction S generalizing seen with
  | empty => exact ⟨.empty, .empty, rfl⟩
  | cell l A S _ ih =>
    obtain ⟨wfA, recS, wfS⟩ := wellFormed_cell.1 wf
    obtain ⟨hadA, hadS⟩ := List.forall_mem_append.1 had
    have value : ∃ v, Typed Γ v A := by
      by_cases mem : l ∈ seen
      · exact hadA A (by simp [mem])
      · have sel : R.lookup l = some A := (agree l mem).trans (if_pos rfl)
        exact ⟨.proj r l, .proj tyR sel⟩
    have agreeS : ∀ k ∉ l :: seen, R.lookup k = S.lookup k := by
      intro k out
      obtain ⟨ne, out⟩ := not_or.1 (mt List.mem_cons.2 out)
      exact (agree k out).trans (if_neg (Ne.symm ne))
    obtain ⟨v, tyV⟩ := value
    obtain ⟨s, tyS, recT⟩ := ih (l :: seen) wfS recS agreeS hadS
    exact ⟨.cell l v s, .cell tyV tyS recS recT, rfl⟩
  | _ => cases rec

/-! ## A term from the answer

Where the type is not declared itself, the search goes on in its parts. -/

/-- For an arrow that is not declared the answer is that for its codomain, with one more variable.
-/
lemma inhabited_arrow (no : (arrow A B).declaredIn Γ = false) :
    (arrow A B).inhabited Γ = B.inhabited (Γ.insert "_" A) := by
  rw [inhabited]
  exact congrArg (· || _) no

lemma inhabited_cell (no : (cell l A R).declaredIn Γ = false) :
    (cell l A R).inhabited Γ = (A.inhabited Γ && R.inhabited Γ) := by
  rw [inhabited]
  exact congrArg (· || _) no

lemma owed_arrow (no : (arrow A B).declaredIn Γ = false) :
    (arrow A B).owed Γ = B.owed (Γ.insert "_" A) := by
  rw [owed, no]
  rfl

lemma owed_cell (no : (cell l A R).declaredIn Γ = false) :
    (cell l A R).owed Γ =
      A.owed Γ ++ (R.owed Γ ++ if R.declaredIn Γ then (R.hidden []).map (Γ, ·) else []) := by
  rw [owed, no]
  rfl

/-- There is a term if there are terms of the types that are owed. If the type is a record type that
is not declared, the term is a record. -/
lemma exists_typed (wf : T.wellFormed = .ok true) (inh : T.inhabited Γ)
    (had : ∀ d ∈ T.owed Γ, ∃ t, Typed d.1 t d.2) :
    ∃ t, Typed Γ t T ∧ (T.declaredIn Γ = false → T.isRecord → t.isRecord) := by
  induction T generalizing Γ with
  | arrow A B _ ih =>
    cases decl : (arrow A B).declaredIn Γ with
    | true =>
      obtain ⟨t, ty⟩ := exists_var wf decl
      exact ⟨t, ty, fun no => by cases no⟩
    | false =>
      obtain ⟨wfA, wfB⟩ := wellFormed_arrow.1 wf
      rw [inhabited_arrow decl] at inh
      rw [owed_arrow decl] at had
      obtain ⟨b, tyB, _⟩ := ih wfB inh had
      exact ⟨.abs "_" A b, .abs wfA tyB, fun _ rec => by cases rec⟩
  | empty => exact ⟨.empty, .empty, fun _ _ => rfl⟩
  | cell l A R ihA ihR =>
    cases decl : (cell l A R).declaredIn Γ with
    | true =>
      obtain ⟨t, ty⟩ := exists_var wf decl
      exact ⟨t, ty, fun no => by cases no⟩
    | false =>
      obtain ⟨wfA, rec, wfR⟩ := wellFormed_cell.1 wf
      rw [inhabited_cell decl, Bool.and_eq_true_iff] at inh
      rw [owed_cell decl, List.forall_mem_append, List.forall_mem_append] at had
      obtain ⟨hadA, hadR, hadH⟩ := had
      obtain ⟨v, tyV, _⟩ := ihA wfA inh.1 hadA
      obtain ⟨r, tyR, recR⟩ := ihR wfR inh.2 hadR
      have rest : ∃ s, Typed Γ s R ∧ s.isRecord := by
        cases declR : R.declaredIn Γ with
        | false => exact ⟨r, tyR, recR declR rec⟩
        | true =>
          rw [declR] at hadH
          apply exists_record [] tyR wfR rec (fun _ _ => rfl)
          intro B mem
          exact hadH (Γ, B) (List.mem_map_of_mem mem)
      obtain ⟨s, tyS, recS⟩ := rest
      exact ⟨.cell l v s, .cell tyV tyS rec recS, fun _ _ => rfl⟩
  | base b =>
    have decl : ((base b).declaredIn Γ || false) = true := inh
    rw [Bool.or_false] at decl
    obtain ⟨t, ty⟩ := exists_var wf decl
    exact ⟨t, ty, fun _ rec => by cases rec⟩
  | hole => cases wf

/-! ## Types without hidden fields -/

/-- No label is repeated in the rest of a cell that the search comes to. -/
def restsDistinct : Ty → Prop
  | arrow _ B => B.restsDistinct
  | cell _ A R => A.restsDistinct ∧ R.restsDistinct ∧ (R.fields.map Prod.fst).Nodup
  | _ => True

/-- Nothing is hidden where no label is repeated. -/
lemma hidden_eq_nil (nodup : (S.fields.map Prod.fst).Nodup)
    (out : ∀ l ∈ S.fields.map Prod.fst, l ∉ seen) : S.hidden seen = [] := by
  induction S generalizing seen with
  | cell l A S _ ih =>
    obtain ⟨first, nodup⟩ := List.nodup_cons.1 nodup
    obtain ⟨outL, outS⟩ := List.forall_mem_cons.1 out
    rw [hidden, if_neg outL, List.nil_append]
    apply ih nodup
    intro k mem
    rw [List.mem_cons, not_or]
    refine ⟨?_, outS k mem⟩
    rintro rfl
    exact first mem
  | _ => rfl

/-- Nothing is owed if the rests of the cells repeat no label. -/
lemma owed_eq_nil (distinct : T.restsDistinct) : T.owed Γ = [] := by
  induction T generalizing Γ with
  | arrow A B _ ih =>
    cases decl : (arrow A B).declaredIn Γ with
    | true => rw [owed, decl]; rfl
    | false => rw [owed_arrow decl, ih distinct]
  | cell l A R ihA ihR =>
    obtain ⟨distA, distR, nodup⟩ := distinct
    cases decl : (cell l A R).declaredIn Γ with
    | true => rw [owed, decl]; rfl
    | false =>
      have none : R.hidden [] = [] := hidden_eq_nil nodup fun _ _ => List.not_mem_nil
      rw [owed_cell decl, ihA distA, ihR distR, none, List.map_nil, ite_self]
      rfl
  | _ => exact ite_self _

/-- The answer is right but for hidden fields. If a well-formed type clearly has a term in a
context, it has one as soon as every type has one that is owed for a field which is hidden in the
declared rest of a cell. Nothing is owed if the rests of the cells repeat no label. -/
theorem inhabited_but_for_hidden {Γ : Env} {T : Ty} (wf : T.wellFormed = .ok true)
    (inh : T.inhabited Γ) :
    ((∀ d ∈ T.owed Γ, ∃ t : Term, t.hasType d.1 = .ok (some d.2)) →
      ∃ t : Term, t.hasType Γ = .ok (some T)) ∧
    (T.restsDistinct → T.owed Γ = [] ∧ ∃ t : Term, t.hasType Γ = .ok (some T)) := by
  simp only [Term.hasType_eq_some_iff]
  constructor
  · intro had
    obtain ⟨t, ty, _⟩ := exists_typed wf inh had
    exact ⟨t, ty⟩
  · intro distinct
    have none : T.owed Γ = [] := owed_eq_nil distinct
    have had : ∀ d ∈ T.owed Γ, ∃ t, Typed d.1 t d.2 := by
      rw [none]
      exact List.forall_mem_nil _
    obtain ⟨t, ty, _⟩ := exists_typed wf inh had
    exact ⟨none, t, ty⟩

/-- A rest that repeats a label, with a variable for the field that is hidden in it, and one that
does not. -/
theorem inhabited_but_for_hidden_owed :
    let B : Ty := .base "B"
    let R : Ty := .cell "l" B .empty
    let Γ : Env := OrderedMap.ofList [("y", .cell "l" .empty R), ("z", B), ("r", R)]
    let T : Ty := .cell "k" .empty (.cell "l" .empty R)
    let U : Ty := .arrow T (.cell "l" B R)
    T.inhabited Γ ∧ T.owed Γ = [(Γ, B)] ∧ (∃ t : Term, t.hasType Γ = .ok (some T)) ∧
      U.inhabited Γ ∧ U.restsDistinct ∧ ∃ t : Term, t.hasType Γ = .ok (some U) := by
  intro B R Γ T U
  have owes : T.owed Γ = [(Γ, B)] := rfl
  have distinct : U.restsDistinct := ⟨trivial, ⟨trivial, trivial, by decide⟩, by decide⟩
  refine ⟨by decide, owes, ?_, by decide, distinct, ?_⟩
  · apply (inhabited_but_for_hidden rfl (by decide)).1
    rw [owes]
    intro d mem
    cases List.mem_singleton.1 mem
    exact ⟨.var "z", by decide⟩
  · exact ((inhabited_but_for_hidden rfl (by decide)).2 distinct).2

/-! ## Types without a term -/

variable {given : Ty → Prop}

mutual

/-- What it takes for a type to have a term if there are terms of the types `given`. -/
def Provided (given : Ty → Prop) : Ty → Prop
  | base b => given (base b)
  | arrow A B => A.Provided given → B.Provided given
  | empty => True
  | cell l A R => given (cell l A R) ∨ A.Provided given ∧ R.Built given
  | hole => False

/-- What it takes for a record type to have a record. -/
def Built (given : Ty → Prop) : Ty → Prop
  | cell _ A R => A.Provided given ∧ R.Built given
  | empty => True
  | base _ | arrow _ _ | hole => False

end

/-- The fields that a label selects in the types given are provided. -/
def Selectable (given : Ty → Prop) : Prop :=
  ∀ R l A, given R → R.lookup l = some A → A.Provided given

/-- The fields of a record that can be built are provided. -/
lemma Built.lookup (built : R.Built given) (sel : R.lookup l = some A) : A.Provided given := by
  induction R with
  | cell k B R _ ih =>
    rw [Ty.lookup] at sel
    split at sel
    · cases sel
      exact built.1
    · exact ih built.2 sel
  | _ => cases sel

/-- The fields of a record type that is provided are provided. -/
lemma Provided.lookup (selects : Selectable given) (prov : R.Provided given)
    (sel : R.lookup l = some A) : A.Provided given := by
  cases R with
  | cell k B R =>
    obtain direct | built := prov
    · exact selects _ l A direct sel
    · exact Built.lookup (R := cell k B R) built sel
  | _ => cases sel

end Ty

/-- The type of a term is provided if those of the variables are. A record is built. -/
lemma Typed.provided {Γ : Env} {t : Term} {T : Ty} {given : Ty → Prop} (ty : Typed Γ t T)
    (selects : Ty.Selectable given) (decl : ∀ x U, Γ.get? x = some U → U.Provided given) :
    T.Provided given ∧ (t.isRecord → T.Built given) := by
  induction ty with
  | var get _ => exact ⟨decl _ _ get, fun rec => by cases rec⟩
  | app _ _ ihf iha => exact ⟨(ihf decl).1 (iha decl).1, fun rec => by cases rec⟩
  | @abs Γ x A _ _ _ _ ih =>
    refine ⟨?_, fun rec => by cases rec⟩
    intro provA
    apply And.left
    apply ih
    intro y U get
    rw [OrderedMap.get?_insert] at get
    split at get
    · cases get
      exact provA
    · exact decl y U get
  | proj _ sel ih => exact ⟨(ih decl).1.lookup selects sel, fun rec => by cases rec⟩
  | empty => exact ⟨trivial, fun _ => trivial⟩
  | cell _ _ _ recR ihv ihr =>
    have built := And.intro (ihv decl).1 ((ihr decl).2 recR)
    exact ⟨.inr built, fun _ => built⟩

/-- A type clearly has a term in a context of well-formed types, and yet has none. The rest of its
cell is declared, but the field that is hidden there cannot be had. -/
theorem Ty.inhabited_without_term :
    let R : Ty := .cell "l" .empty (.cell "l" (.base "B") .empty)
    let Γ : Env := OrderedMap.ofList [("y", R)]
    let T : Ty := .cell "k" .empty R
    (∀ e ∈ Γ.entries, e.2.wellFormed = .ok true) ∧ T.wellFormed = .ok true ∧ T.inhabited Γ ∧
      ∀ t : Term, t.hasType Γ ≠ .ok (some T) := by
  intro R Γ T
  refine ⟨by decide, rfl, by decide, ?_⟩
  intro t has
  have selects : Ty.Selectable (· = R) := by
    intro S l A eq sel
    subst eq
    by_cases e : "l" = l
    · rw [Ty.lookup, if_pos e] at sel
      cases sel
      exact trivial
    · rw [Ty.lookup, if_neg e, Ty.lookup, if_neg e] at sel
      cases sel
  have decl : ∀ x U, Γ.get? x = some U → U.Provided (· = R) := by
    intro x U get
    cases List.mem_singleton.1 (OrderedMap.mem_entries_iff.2 get)
    exact .inl rfl
  obtain same | ⟨_, _, noBase, _⟩ := ((Term.hasType_eq_some_iff.1 has).provided selects decl).1
  · exact absurd same (by decide)
  · have same : Ty.base "B" = R := noBase
    exact absurd same (by decide)

end RecordLambda
