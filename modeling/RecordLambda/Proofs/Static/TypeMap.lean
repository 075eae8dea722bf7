import RecordLambda.Static.TypeMap
import RecordLambda.Proofs.Static.Position

/-!
# Type maps

The map of a graph that has a type has an entry for each of its objects and for nothing else. The
entry is the type of the object at the rightmost of its positions, in the context of that position.

An object does not contain itself, so of two of its positions one is to the left of the other, and
the one to the right is noted later. The invariant `Graph.Noted` says this of one graph. It goes
from the parts of a graph to the graph, since the parts are noted from left to right and the root
comes last. It makes no difference if the cells of a chain are kept until its values and its end are
noted, and are then noted from the last to the first, `Graph.noteAlong`.
-/

namespace RecordLambda

namespace Graph

/-- The immediate parts of a graph. -/
def parts : Graph → List Graph
  | app _ f a => [f, a]
  | abs _ _ _ b => [b]
  | proj _ r _ => [r]
  | cell _ _ v r => [v, r]
  | _ => []

/-- What stands at the positions of one object is everywhere the same. -/
def Coherent (g : Graph) : Prop :=
  ∀ h ∈ g.positions, ∀ h' ∈ g.positions, h.id = h'.id → h = h'

/-- Whether a graph is coherent can be decided. -/
instance (g : Graph) : Decidable g.Coherent :=
  inferInstanceAs (Decidable (∀ h ∈ g.positions, ∀ h' ∈ g.positions, h.id = h'.id → h = h'))

/-- No object stands at two positions. -/
def Unshared (g : Graph) : Prop := (g.positions.map Graph.id).Nodup

/-- Whether a graph is unshared can be decided. -/
instance (g : Graph) : Decidable g.Unshared :=
  inferInstanceAs (Decidable (g.positions.map Graph.id).Nodup)

/-- The object stands somewhere in the graph. -/
def Occurs (g : Graph) (i : Nat) : Prop := ∃ h ∈ g.positions, h.id = i

/-! ## Positions of a graph -/

variable {Γ Γ' Δ : Env} {g h s : Graph} {i k : Nat} {p q : Position} {m m₁ m₂ : TypeMap}
  {T U : Ty}

/-- A graph stands at the root, and below it what stands in its parts. -/
lemma positions_eq (g : Graph) : g.positions = g :: g.parts.flatMap positions := by
  cases g <;> simp [positions, parts]

/-- What stands in a graph is itself or stands in a part. -/
lemma mem_positions : h ∈ g.positions ↔ h = g ∨ ∃ s ∈ g.parts, h ∈ s.positions := by
  rw [positions_eq, List.mem_cons, List.mem_flatMap]

lemma mem_positions_self (g : Graph) : g ∈ g.positions := mem_positions.2 (.inl rfl)

/-- What stands in a part stands in the whole. -/
lemma mem_positions_of_part (part : s ∈ g.parts) (mem : h ∈ s.positions) : h ∈ g.positions :=
  mem_positions.2 (.inr ⟨s, part, mem⟩)

/-- What is found at a position occurs. -/
lemma occurs_of_get? (found : p.get? parts g = some h) (eq : h.id = i) : g.Occurs i := by
  refine ⟨h, ?_, eq⟩
  induction p generalizing g with
  | nil =>
    cases found
    exact mem_positions_self _
  | cons k p ih =>
    obtain ⟨s, part, found⟩ := Position.get?_cons_eq_some.1 found
    exact mem_positions_of_part (List.mem_of_getElem? part) (ih found)

/-- An object other than the root occurs only if it occurs in a part. -/
lemma not_occurs (ne : i ≠ g.id) (out : ∀ s ∈ g.parts, ¬s.Occurs i) : ¬g.Occurs i := by
  intro ⟨h, mem, eq⟩
  obtain rfl | ⟨s, part, mem⟩ := mem_positions.1 mem
  · exact ne eq.symm
  · exact out s part ⟨h, mem, eq⟩

/-- A part is smaller than the whole. -/
lemma sizeOf_lt_of_mem_parts (part : s ∈ g.parts) : sizeOf s < sizeOf g := by
  cases g <;> simp only [parts, List.mem_cons, List.not_mem_nil, or_false] at part
  all_goals
    simp only [app.sizeOf_spec, abs.sizeOf_spec, proj.sizeOf_spec, cell.sizeOf_spec]
    grind

/-- What stands in a graph is not larger than it. -/
lemma sizeOf_le_of_mem_positions {g h : Graph} (mem : h ∈ g.positions) : sizeOf h ≤ sizeOf g := by
  obtain rfl | ⟨s, part, mem⟩ := mem_positions.1 mem
  · exact Nat.le_refl _
  · have lt := sizeOf_lt_of_mem_parts part
    exact Nat.le_trans (sizeOf_le_of_mem_positions mem) (Nat.le_of_lt lt)
termination_by sizeOf g

namespace Unshared

/-- In an unshared graph the root is in none of the parts, and these are unshared and have no object
in common. -/
lemma parts_nodup (single : g.Unshared) :
    g.id ∉ g.parts.flatMap (fun s => s.positions.map Graph.id) ∧
      (∀ s ∈ g.parts, s.Unshared) ∧
      g.parts.Pairwise (Function.onFun List.Disjoint fun s => s.positions.map Graph.id) := by
  rw [Unshared, positions_eq, List.map_cons, List.map_flatMap, List.nodup_cons,
    List.nodup_flatMap] at single
  exact single

/-- Two parts have no object in common. -/
lemma not_lt {k k' : Nat} {s s' h' : Graph} (single : g.Unshared) (part : g.parts[k]? = some s)
    (part' : g.parts[k']? = some s') (found : p.get? parts s = some h)
    (found' : q.get? parts s' = some h') (same : h.id = h'.id) : ¬k < k' := by
  intro lt
  obtain ⟨-, -, apart⟩ := single.parts_nodup
  obtain ⟨lk, rfl⟩ := List.getElem?_eq_some_iff.1 part
  obtain ⟨lk', rfl⟩ := List.getElem?_eq_some_iff.1 part'
  apply List.pairwise_iff_getElem.1 apart k k' lk lk' lt
  · exact List.mem_map.2 (occurs_of_get? found same)
  · exact List.mem_map.2 (occurs_of_get? found' rfl)

/-- In an unshared graph the root is not below itself. -/
lemma id_ne (single : g.Unshared) (found : Position.get? parts (k :: p) g = some h) :
    g.id ≠ h.id := by
  intro same
  obtain ⟨s, part, found⟩ := Position.get?_cons_eq_some.1 found
  apply single.parts_nodup.1
  rw [List.mem_flatMap]
  exact ⟨s, List.mem_of_getElem? part, List.mem_map.2 (occurs_of_get? found same.symm)⟩

/-- An object has one position. -/
lemma position_unique {h' : Graph} (single : g.Unshared) (found : p.get? parts g = some h)
    (found' : q.get? parts g = some h') (same : h.id = h'.id) : p = q := by
  induction p generalizing g q with
  | nil =>
    cases found
    cases q with
    | nil => rfl
    | cons k q => exact absurd same (single.id_ne found')
  | cons k p ih =>
    cases q with
    | nil =>
      cases found'
      exact absurd same.symm (single.id_ne found)
    | cons k' q =>
      obtain ⟨s, part, found⟩ := Position.get?_cons_eq_some.1 found
      obtain ⟨s', part', found'⟩ := Position.get?_cons_eq_some.1 found'
      obtain lt | rfl | gt := Nat.lt_trichotomy k k'
      · exact absurd lt (single.not_lt part part' found found' same)
      · cases part.symm.trans part'
        have single := single.parts_nodup.2.1 s (List.mem_of_getElem? part)
        rw [ih single found found']
      · exact absurd gt (single.not_lt part' part found' found same.symm)

end Unshared

namespace Coherent

/-- The parts of a coherent graph are coherent. -/
lemma part (co : g.Coherent) (part : s ∈ g.parts) : s.Coherent := by
  intro h mem h' mem'
  exact co h (mem_positions_of_part part mem) h' (mem_positions_of_part part mem')

/-- No object contains itself. -/
lemma not_occurs_id (co : g.Coherent) (part : s ∈ g.parts) : ¬s.Occurs g.id := by
  intro ⟨h, mem, eq⟩
  have same : h = g := co h (mem_positions_of_part part mem) g (mem_positions_self g) eq
  have le := sizeOf_le_of_mem_positions mem
  have lt := sizeOf_lt_of_mem_parts part
  rw [same] at le
  omega

end Coherent

/-! ## The rightmost position -/

/-- Of the positions of the object `i` the last one is `p`, where the graph `h` stands in the
context `Δ`. -/
structure Rightmost (Γ : Env) (g : Graph) (i : Nat) (p : Position) (Δ : Env) (h : Graph) :
    Prop where
  found : p.get? parts g = some h
  scope : p.get? Term.parts (Γ, g.term) = some (Δ, h.term)
  object : h.id = i
  last : ∀ (q : Position) h', q.get? parts g = some h' → h'.id = i → q = p ∨ q.LeftOf p

namespace Rightmost

/-- What has a rightmost position occurs. -/
lemma occurs (right : Rightmost Γ g i p Δ h) : g.Occurs i :=
  occurs_of_get? right.found right.object

/-- There is one rightmost position. -/
lemma unique {Δ' : Env} {h' : Graph} (right : Rightmost Γ g i p Δ h)
    (right' : Rightmost Γ g i q Δ' h') : q = p ∧ Δ' = Δ ∧ h' = h := by
  have eq : q = p := by
    obtain eq | left := right.last q h' right'.found right'.object
    · exact eq
    obtain eq | left' := right'.last p h right.found right.object
    · exact eq.symm
    · exact absurd left' left.asymm
  subst eq
  have scope := right.scope.symm.trans right'.scope
  have found := right.found.symm.trans right'.found
  cases found
  cases scope
  exact ⟨rfl, rfl, rfl⟩

/-- The root is the rightmost position of an object that is in none of the parts. -/
lemma root (out : ∀ s ∈ g.parts, ¬s.Occurs g.id) : Rightmost Γ g g.id [] Γ g := by
  refine ⟨rfl, rfl, rfl, ?_⟩
  intro q h' found eq
  cases q with
  | nil => exact .inl rfl
  | cons k q =>
    obtain ⟨s, part, found⟩ := Position.get?_cons_eq_some.1 found
    exact absurd (occurs_of_get? found eq) (out s (List.mem_of_getElem? part))

/-- The last position in a part is the last one in the whole if no later part has the object. -/
lemma of_part (right : Rightmost Γ' s i p Δ h) (ne : i ≠ g.id) (part : g.parts[k]? = some s)
    (scope : (Term.parts (Γ, g.term))[k]? = some (Γ', s.term))
    (later : ∀ s' ∈ g.parts.drop (k + 1), ¬s'.Occurs i) : Rightmost Γ g i (k :: p) Δ h := by
  refine ⟨Position.get?_cons_eq_some.2 ⟨s, part, right.found⟩,
    Position.get?_cons_eq_some.2 ⟨_, scope, right.scope⟩, right.object, ?_⟩
  intro q h' found eq
  cases q with
  | nil =>
    cases found
    exact absurd eq.symm ne
  | cons k' q =>
    obtain ⟨s', part', found⟩ := Position.get?_cons_eq_some.1 found
    obtain lt | rfl | gt := Nat.lt_trichotomy k' k
    · exact .inr (.turn lt)
    · cases part.symm.trans part'
      obtain rfl | left := right.last q h' found eq
      · exact .inl rfl
      · exact .inr (.down left)
    · have mem : s' ∈ g.parts.drop (k + 1) := by
        apply List.mem_of_getElem? (i := k' - (k + 1))
        rw [List.getElem?_drop, Nat.add_sub_cancel' gt, part']
      exact absurd (occurs_of_get? found eq) (later s' mem)

end Rightmost

/-! ## Noting -/

/-- The map has for the object its type at the rightmost position. -/
def Holds (Γ : Env) (g : Graph) (m : TypeMap) (i : Nat) : Prop :=
  ∃ p Δ h U, Rightmost Γ g i p Δ h ∧ Typed Δ h.term U ∧ m.get? i = some U

/-- From the first map to the second the objects of the graph get their types, all else stays. -/
def Noted (Γ : Env) (g : Graph) (m m' : TypeMap) : Prop :=
  ∀ i, (¬g.Occurs i ∧ m'.get? i = m.get? i) ∨ g.Holds Γ m' i

/-- What holds of an object in a part holds in the whole, if no later part has the object. -/
lemma Holds.of_part (holds : s.Holds Γ' m i) (ne : i ≠ g.id) (part : g.parts[k]? = some s)
    (scope : (Term.parts (Γ, g.term))[k]? = some (Γ', s.term))
    (later : ∀ s' ∈ g.parts.drop (k + 1), ¬s'.Occurs i) : g.Holds Γ (m.insert g.id T) i := by
  obtain ⟨p, Δ, h, U, right, ty, get⟩ := holds
  refine ⟨k :: p, Δ, h, U, right.of_part ne part scope later, ty, ?_⟩
  rw [OrderedMap.get?_insert, if_neg ne, get]

/-- The root is noted last, so nothing but its own entry changes. -/
lemma noted_root (co : g.Coherent) (ty : Typed Γ g.term T)
    (below : ∀ i, i ≠ g.id →
      ((∀ s ∈ g.parts, ¬s.Occurs i) ∧ m₁.get? i = m.get? i) ∨ g.Holds Γ (m₁.insert g.id T) i) :
    Noted Γ g m (m₁.insert g.id T) := by
  intro i
  by_cases e : i = g.id
  · right
    subst e
    refine ⟨[], Γ, g, T, .root fun s part => co.not_occurs_id part, ty, ?_⟩
    rw [OrderedMap.get?_insert, if_pos rfl]
  · obtain ⟨out, same⟩ | holds := below i e
    · left
      refine ⟨not_occurs e out, ?_⟩
      rw [OrderedMap.get?_insert, if_neg e, same]
    · exact .inr holds

namespace Noted

/-- A graph without parts gets its entry. -/
lemma leaf (co : g.Coherent) (ty : Typed Γ g.term T) (none : g.parts = []) :
    Noted Γ g m (m.insert g.id T) := by
  apply noted_root co ty
  intro i _
  left
  rw [none]
  exact ⟨List.forall_mem_nil _, rfl⟩

/-- A graph with one part is noted after it. -/
lemma of_part (noted : Noted Γ' s m m₁) (co : g.Coherent) (ty : Typed Γ g.term T)
    (only : g.parts = [s]) (scope : Term.parts (Γ, g.term) = [(Γ', s.term)]) :
    Noted Γ g m (m₁.insert g.id T) := by
  apply noted_root co ty
  intro i ne
  obtain ⟨out, same⟩ | holds := noted i
  · left
    rw [only]
    exact ⟨List.forall_mem_singleton.2 out, same⟩
  · right
    apply holds.of_part (k := 0) ne
    · rw [only]
      rfl
    · rw [scope]
      rfl
    · rw [only]
      exact List.forall_mem_nil _

/-- A graph with two parts is noted after both, from left to right. -/
lemma of_parts {s' : Graph} (first : Noted Γ s m m₁) (second : Noted Γ s' m₁ m₂) (co : g.Coherent)
    (ty : Typed Γ g.term T) (both : g.parts = [s, s'])
    (scope : Term.parts (Γ, g.term) = [(Γ, s.term), (Γ, s'.term)]) :
    Noted Γ g m (m₂.insert g.id T) := by
  apply noted_root co ty
  intro i ne
  -- what is in both parts keeps what the second one noted
  obtain ⟨out', same'⟩ | holds := second i
  · obtain ⟨out, same⟩ | holds := first i
    · left
      rw [both]
      exact ⟨List.forall_mem_cons.2 ⟨out, List.forall_mem_singleton.2 out'⟩, same'.trans same⟩
    · right
      obtain ⟨p, Δ, h, U, right, ty, get⟩ := holds
      have holds : s.Holds Γ m₂ i := ⟨p, Δ, h, U, right, ty, same'.trans get⟩
      apply holds.of_part (k := 0) ne
      · rw [both]
        rfl
      · rw [scope]
        rfl
      · rw [both]
        exact List.forall_mem_singleton.2 out'
  · right
    apply holds.of_part (k := 1) ne
    · rw [both]
      rfl
    · rw [scope]
      rfl
    · rw [both]
      exact List.forall_mem_nil _

end Noted

/-- Noting a type changes nothing about it. -/
lemma map_fst_insert (x : Except TypingError Ty) (i : Nat) (m : TypeMap) :
    (do let T ← x; return (T, m.insert i T) : Except TypingError (Ty × TypeMap)).map Prod.fst =
      x := by
  cases x <;> rfl

/-- Noting comes to what inference comes to. -/
lemma note_map_fst (Γ : Env) (g : Graph) (m : TypeMap) :
    (g.note Γ m).map Prod.fst = g.term.infer Γ := by
  induction g generalizing Γ m with
  | var i x => exact map_fst_insert (Ty.ofVar Γ x) i m
  | app i f a ihf iha =>
    rw [note, term, Term.infer, ← ihf Γ m]
    rcases f.note Γ m with e | ⟨F, m₁⟩
    · rfl
    show Except.map _ (a.note Γ m₁ >>= _) = a.term.infer Γ >>= _
    rw [← iha Γ m₁]
    rcases a.note Γ m₁ with e | ⟨A, m₂⟩
    · rfl
    · exact map_fst_insert (Ty.ofApp (.app f.term a.term) F A) i m₂
  | abs i x A b ih =>
    show Except.map _ (A.requireWellFormed (blame (.annotated x A) (.abs x A b.term)) >>= _) =
      A.requireWellFormed (blame (.annotated x A) (.abs x A b.term)) >>= _
    rcases A.requireWellFormed (blame (.annotated x A) (.abs x A b.term)) with e | _
    · rfl
    show Except.map _ (b.note (Γ.insert x A) m >>= _) = b.term.infer (Γ.insert x A) >>= _
    rw [← ih (Γ.insert x A) m]
    rcases b.note (Γ.insert x A) m with e | ⟨B, m₁⟩
    · rfl
    · rfl
  | proj i r l ih =>
    rw [note, term, Term.infer, ← ih Γ m]
    rcases r.note Γ m with e | ⟨R, m₁⟩
    · rfl
    · exact map_fst_insert (Ty.ofProj (.proj r.term l) l R) i m₁
  | empty i => rfl
  | cell i l v r ihv ihr =>
    rw [note, term, Term.infer, ← ihv Γ m]
    rcases v.note Γ m with e | ⟨A, m₁⟩
    · rfl
    show Except.map _ (r.note Γ m₁ >>= _) = r.term.infer Γ >>= _
    rw [← ihr Γ m₁]
    rcases r.note Γ m₁ with e | ⟨R, m₂⟩
    · rfl
    · exact map_fst_insert (Ty.ofCell (.cell l v.term r.term) l A r.term R) i m₂
  | hole i => rfl

/-- The type that noting comes to is the type of the graph. -/
lemma typed_of_note (eq : g.note Γ m = .ok (T, m₁)) : Typed Γ g.term T := by
  rw [← Term.infer_eq_ok_iff, ← note_map_fst Γ g m, eq]
  rfl

/-- By induction on the graph, noting gives its objects their types. -/
lemma noted_of_note (co : g.Coherent) (eq : g.note Γ m = .ok (T, m₁)) : Noted Γ g m m₁ := by
  induction g generalizing Γ m T m₁ with
  | var i x =>
    have ty := typed_of_note eq
    obtain ⟨U, _, eq⟩ := bind_eq_ok_iff.1 eq
    cases eq
    exact .leaf co ty rfl
  | app i f a ihf iha =>
    have ty := typed_of_note eq
    obtain ⟨⟨F, mF⟩, eqF, eq⟩ := bind_eq_ok_iff.1 eq
    obtain ⟨⟨A, mA⟩, eqA, eq⟩ := bind_eq_ok_iff.1 eq
    obtain ⟨U, _, eq⟩ := bind_eq_ok_iff.1 eq
    cases eq
    have notedF := ihf (co.part (by simp [parts])) eqF
    have notedA := iha (co.part (by simp [parts])) eqA
    exact notedF.of_parts notedA co ty rfl rfl
  | abs i x A b ih =>
    have ty := typed_of_note eq
    obtain ⟨_, _, eq⟩ := bind_eq_ok_iff.1 eq
    obtain ⟨⟨B, mB⟩, eqB, eq⟩ := bind_eq_ok_iff.1 eq
    cases eq
    have notedB := ih (co.part (by simp [parts])) eqB
    exact notedB.of_part co ty rfl rfl
  | proj i r l ih =>
    have ty := typed_of_note eq
    obtain ⟨⟨R, mR⟩, eqR, eq⟩ := bind_eq_ok_iff.1 eq
    obtain ⟨U, _, eq⟩ := bind_eq_ok_iff.1 eq
    cases eq
    have notedR := ih (co.part (by simp [parts])) eqR
    exact notedR.of_part co ty rfl rfl
  | empty i =>
    cases eq
    exact .leaf co .empty rfl
  | cell i l v r ihv ihr =>
    have ty := typed_of_note eq
    obtain ⟨⟨A, mV⟩, eqV, eq⟩ := bind_eq_ok_iff.1 eq
    obtain ⟨⟨R, mR⟩, eqR, eq⟩ := bind_eq_ok_iff.1 eq
    obtain ⟨U, _, eq⟩ := bind_eq_ok_iff.1 eq
    cases eq
    have notedV := ihv (co.part (by simp [parts])) eqV
    have notedR := ihr (co.part (by simp [parts])) eqR
    exact notedV.of_parts notedR co ty rfl rfl
  | hole i => cases eq

/-! ## One pass along a chain -/

/-- Puts the cells in front of what was found for a rest, the last one first. A cell is given by its
object, its label and the type of its value. -/
def noteBack (done : List (Nat × String × Ty)) (rest : Ty × TypeMap) : Ty × TypeMap :=
  done.foldr (fun (i, l, A) (R, m) => (.cell l A R, m.insert i (.cell l A R))) rest

/-- Notes a chain of which the cells in `done` were already passed but not yet noted; `last` is the
chain from the last of them on. -/
def noteAlong (Γ : Env) : Graph → List (Nat × String × Ty) → Term → TypeMap →
    Except TypingError (Ty × TypeMap)
  | g@(cell i l v r), done, _, m => do
    let (A, m) ← v.note Γ m
    r.noteAlong Γ (done ++ [(i, l, A)]) g.term m
  | g, done, last, m => do
    let (R, m) ← g.note Γ m
    if !R.isRecord then .error (blame (.restType R) last)
    else if !g.term.isRecord then .error (blame .restTerm last)
    else return noteBack done (R, m)

/-- The last cell is noted first. -/
lemma noteBack_append (done : List (Nat × String × Ty)) (i : Nat) (l : String) (A R : Ty)
    (m : TypeMap) :
    noteBack (done ++ [(i, l, A)]) (R, m) =
      noteBack done (.cell l A R, m.insert i (.cell l A R)) :=
  List.foldr_append

/-- At the end of a chain the last cell is put in front, if this is a record, and then the others.
-/
lemma noteAlong_end (done : List (Nat × String × Ty)) (i : Nat) (l : String) (A : Ty)
    (last r : Term) (R : Ty) (m : TypeMap) :
    (if !R.isRecord then .error (blame (.restType R) last)
      else if !r.isRecord then .error (blame .restTerm last)
      else return noteBack (done ++ [(i, l, A)]) (R, m)) =
    (do
      let T ← Ty.ofCell last l A r R
      return noteBack done (T, m.insert i T)) := by
  rw [noteBack_append, Ty.ofCell]
  cases R.isRecord with
  | false => rfl
  | true => cases r.isRecord <;> rfl

/-- Behind a cell the pass comes to what noting the cell after its rest comes to. -/
lemma noteAlong_append (done : List (Nat × String × Ty)) (i : Nat) (l : String) (A : Ty)
    (last : Term) (r : Graph) (m : TypeMap) :
    r.noteAlong Γ (done ++ [(i, l, A)]) last m = (do
      let (R, m) ← r.note Γ m
      let T ← Ty.ofCell last l A r.term R
      return noteBack done (T, m.insert i T)) := by
  induction r generalizing done i l A last m with
  | cell i' l' v r _ ihr =>
    rw [noteAlong, note]
    rcases v.note Γ m with e | ⟨A', m₁⟩
    · rfl
    show r.noteAlong Γ (done ++ [(i, l, A)] ++ [(i', l', A')]) (.cell l' v.term r.term) m₁ = _
    rw [ihr]
    rcases eqR : r.note Γ m₁ with e | ⟨R', m₂⟩
    · simp only [bind, Except.bind, eqR]
    -- what has a cell in front is a record and has a record type
    rcases eqT : Ty.ofCell (.cell l' v.term r.term) l' A' r.term R' with e | T'
    · simp only [bind, Except.bind, eqR, eqT, term]
    · simp only [bind, Except.bind, eqR, eqT, term]
      obtain ⟨_, rfl⟩ := Ty.ofCell_eq_ok_iff.1 eqT
      exact noteAlong_end done i l A last (.cell l' v.term r.term) (.cell l' A' R') _
  | _ =>
    rw [noteAlong]
    · congr 1
      funext res
      exact noteAlong_end done i l A last _ res.1 res.2
    · intro _ _ _ _ eq
      cases eq

/-- A chain may be noted in one pass, its cells from the last to the first after all the values. -/
lemma noteAlong_nil (rec : g.term.isRecord) : g.noteAlong Γ [] g.term m = g.note Γ m := by
  cases g with
  | empty i => rfl
  | cell i l v r =>
    rw [noteAlong, note]
    congr 1
    funext (A, m)
    exact noteAlong_append [] i l A (.cell l v.term r.term) r m
  | _ => cases rec

/-! ## The type map -/

/-- There is a map just if the graph has a type. -/
lemma exists_typeMap_iff : (∃ m, g.typeMap Γ = .ok (T, m)) ↔ g.term.hasType Γ = .ok (some T) := by
  rw [Term.hasType_eq_some_iff]
  constructor
  · intro ⟨m, eq⟩
    exact typed_of_note eq
  · intro ty
    have fst := note_map_fst Γ g ∅
    rw [Term.infer_eq_ok_iff.2 ty] at fst
    rw [typeMap]
    rcases eq : g.note Γ ∅ with e | ⟨U, m⟩
    · rw [eq] at fst
      cases fst
    · rw [eq] at fst
      cases fst
      exact ⟨m, rfl⟩

/-- The map has entries for the objects of the graph. -/
lemma contains_iff (noted : Noted Γ g ∅ m) : m.contains i ↔ g.Occurs i := by
  obtain ⟨out, same⟩ | holds := noted i
  · have no : m.contains i = false := congrArg Option.isSome same
    simp [no, out]
  · obtain ⟨p, Δ, h, U, right, _, get⟩ := holds
    have yes : m.contains i = true := congrArg Option.isSome get
    simp [yes, right.occurs]

/-- The entries are the types at the rightmost positions. -/
lemma get?_eq_some_iff (noted : Noted Γ g ∅ m) :
    m.get? i = some U ↔ ∃ p Δ h, Rightmost Γ g i p Δ h ∧ Typed Δ h.term U := by
  constructor
  · intro get
    obtain ⟨_, same⟩ | ⟨p, Δ, h, U', right, ty, get'⟩ := noted i
    · cases same.symm.trans get
    · cases get'.symm.trans get
      exact ⟨p, Δ, h, right, ty⟩
  · intro ⟨p, Δ, h, right, ty⟩
    obtain ⟨out, _⟩ | ⟨p', Δ', h', U', right', ty', get⟩ := noted i
    · exact absurd right.occurs out
    · obtain ⟨rfl, rfl, rfl⟩ := right.unique right'
      rw [get, ty.unique ty']

/-- The map of a graph has an entry for each of its objects and for nothing else: the type at the
rightmost position of the object, in the context of that position. Without sharing this is the type
at the only position. There is a map just if the graph has a type, and a chain may be noted in one
pass that keeps its cells for the end. -/
theorem typeMap_rightmost {Γ : Env} {g : Graph} (co : g.Coherent) :
    (∀ T, (∃ m, g.typeMap Γ = .ok (T, m)) ↔ g.term.hasType Γ = .ok (some T)) ∧
    (∀ T m, g.typeMap Γ = .ok (T, m) →
      (∀ i, m.contains i ↔ g.Occurs i) ∧
      (∀ i U, m.get? i = some U ↔
        ∃ p Δ h, Rightmost Γ g i p Δ h ∧ h.term.hasType Δ = .ok (some U)) ∧
      (g.Unshared → ∀ (p : Position) h, p.get? parts g = some h →
        ∃ Δ U, p.get? Term.parts (Γ, g.term) = some (Δ, h.term) ∧
          h.term.hasType Δ = .ok (some U) ∧ m.get? h.id = some U)) ∧
    (g.term.isRecord → ∀ m, g.noteAlong Γ [] g.term m = g.note Γ m) := by
  refine ⟨fun T => exists_typeMap_iff, ?_, fun rec m => noteAlong_nil rec⟩
  intro T m eq
  have noted := noted_of_note co eq
  simp only [Term.hasType_eq_some_iff]
  refine ⟨fun i => contains_iff noted, fun i U => get?_eq_some_iff noted, ?_⟩
  intro single p h found
  obtain ⟨out, _⟩ | ⟨q, Δ, h', U, right, ty, get⟩ := noted h.id
  · exact absurd (occurs_of_get? found rfl) out
  · cases single.position_unique right.found found right.object
    cases right.found.symm.trans found
    exact ⟨Δ, U, right.scope, ty, get⟩

/-- One variable below two binders of its name: the second binder is to the right and gives it its
type. And a record without sharing. -/
theorem typeMap_rightmost_shared :
    let A : Ty := .base "A"
    let F : Ty := .arrow A A
    let x : Graph := .var 0 "x"
    let g : Graph := .app 4 (.abs 2 "x" F (.abs 1 "y" A x)) (.abs 3 "x" A x)
    let m : TypeMap := OrderedMap.ofList
      [(0, A), (1, .arrow A F), (2, .arrow F (.arrow A F)), (3, F), (4, .arrow A F)]
    let r : Graph := .cell 3 "f" (.abs 1 "x" A x) (.empty 2)
    (g.Coherent ∧ g.typeMap ∅ = .ok (.arrow A F, m) ∧
      ∃ p Δ h, Rightmost ∅ g 0 p Δ h ∧ h.term.hasType Δ = .ok (some A)) ∧
    (r.Coherent ∧ r.Unshared ∧ r.noteAlong ∅ [] r.term ∅ = r.note ∅ ∅ ∧
      ∃ m', r.typeMap ∅ = .ok (.cell "f" F .empty, m') ∧
        ∃ Δ U, Position.get? Term.parts [0, 0] (∅, r.term) = some (Δ, x.term) ∧
          x.term.hasType Δ = .ok (some U) ∧ m'.get? 0 = some U) := by
  intro A F x g m r
  constructor
  · have co : g.Coherent := by decide
    have eq : g.typeMap ∅ = .ok (.arrow A F, m) := rfl
    obtain ⟨-, entries, -⟩ := typeMap_rightmost (Γ := ∅) co
    obtain ⟨-, entry, -⟩ := entries _ m eq
    exact ⟨co, eq, (entry 0 A).1 rfl⟩
  · have co : r.Coherent := by decide
    have single : r.Unshared := by decide
    obtain ⟨typed, entries, along⟩ := typeMap_rightmost (Γ := ∅) co
    obtain ⟨m', eq⟩ := (typed (.cell "f" F .empty)).2 rfl
    obtain ⟨-, -, entry⟩ := entries _ m' eq
    exact ⟨co, single, along rfl ∅, m', eq, entry single [0, 0] x rfl⟩

end Graph

end RecordLambda
