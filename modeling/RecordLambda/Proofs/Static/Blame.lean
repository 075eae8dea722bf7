import RecordLambda.Proofs.Static.Position

/-!
# Blame

What a failed inference blames is the first part without a type, `FirstUntyped`: the part has no
type in its context, all that is to the left of it has a type, and so have its own parts. The
exception is an abstraction with an ill-formed annotation, whose body is not looked at. Whatever
else has no type is then around the part or to the right of it.

The rules for a term accuse that term only; all other blame comes from a part and is passed on. So
the proof is an induction on the term with one step, `FirstUntyped.of_part`, for every part that
fails after the parts before it have got their types.
-/

namespace RecordLambda

/-- What a failed inference has to blame. A fault blames nothing. -/
def TypingError.culprit? : TypingError → Option Value
  | illTyped _ t => some (.node t)
  | notTerm got => some got
  | fault _ => none

/-! ## The rules -/

/-- The only thing to be blamed is the term. -/
def Accuses {α : Type} (t : Term) (x : Except TypingError α) : Prop :=
  ∀ e v, x = .error e → e.culprit? = some v → v = .node t

lemma accuses_ok {α : Type} (t : Term) (a : α) : Accuses t (.ok a) := by
  intro e v eq
  cases eq

lemma accuses_blame {α : Type} (cause : Cause) (t : Term) :
    Accuses t (.error (blame cause t) : Except TypingError α) := by
  intro e v eq cul
  cases eq
  unfold blame at cul
  split at cul
  · cases cul
  · cases cul
    rfl

/-- Two rules in a row fail if the first does, or if it does not and the second does. -/
lemma bind_eq_error_iff {ε α β : Type} {x : Except ε α} {f : α → Except ε β} {e : ε} :
    x >>= f = .error e ↔ x = .error e ∨ ∃ a, x = .ok a ∧ f a = .error e := by
  cases x with
  | error e' =>
    constructor
    · intro eq
      cases eq
      exact .inl rfl
    · intro either
      obtain eq | ⟨a, eq, _⟩ := either
      · cases eq
        rfl
      · cases eq
  | ok a =>
    constructor
    · intro eq
      exact .inr ⟨a, rfl, eq⟩
    · intro either
      obtain eq | ⟨a', eq, err⟩ := either
      · cases eq
      · cases eq
        exact err

namespace Ty

variable {A F R T : Ty} {l x : String} {t r : Term} {Γ : Env}

/-- Only an ill-formed type is to be blamed; a hole in it is a fault. -/
lemma wellFormed_of_requireWellFormed {cause : Cause} {e : TypingError} {v : Value}
    (err : T.requireWellFormed (blame cause t) = .error e) (cul : e.culprit? = some v) :
    T.wellFormed = .ok false ∧ v = .node t := by
  unfold requireWellFormed at err
  split at err
  · cases err
  · rename_i wf
    exact ⟨wf, accuses_blame cause t e v err cul⟩
  · cases err
    cases cul

/-- The rule for variables accuses the variable. -/
lemma accuses_ofVar : Accuses (.var x) (ofVar Γ x) := by
  unfold ofVar
  split
  · exact accuses_blame _ _
  · rename_i T _
    intro e v err cul
    obtain err | ⟨_, _, err⟩ := bind_eq_error_iff.1 err
    · exact (wellFormed_of_requireWellFormed err cul).2
    · cases err

lemma accuses_ofApp : Accuses t (ofApp t F A) := by
  unfold ofApp
  split
  · split
    · exact accuses_ok t _
    · exact accuses_blame _ t
  · exact accuses_blame _ t

lemma accuses_ofProj : Accuses t (ofProj t l R) := by
  unfold ofProj
  split
  · exact accuses_ok t _
  · exact accuses_blame _ t

lemma accuses_ofCell : Accuses t (ofCell t l A r R) := by
  unfold ofCell
  split
  · exact accuses_blame _ t
  · split
    · exact accuses_blame _ t
    · exact accuses_ok t _

end Ty

/-! ## The first part without a type -/

/-- An abstraction whose annotation is not well formed. -/
def Term.IllAnnotated (t : Term) : Prop := ∃ x A b, t = abs x A b ∧ A.wellFormed = .ok false

/-- At the position `p` of a term there is, in the context `Δ`, the first part `n` that has no
type. -/
structure FirstUntyped (Γ : Env) (t : Term) (p : Position) (Δ : Env) (n : Term) : Prop where
  found : p.get? Term.parts (Γ, t) = some (Δ, n)
  untyped : n.hasType Δ = .ok none
  innermost : n.IllAnnotated ∨ ∀ d ∈ Term.parts (Δ, n), Typeable d
  leftmost : ∀ (q : Position) d, q.LeftOf p → q.get? Term.parts (Γ, t) = some d → Typeable d

namespace FirstUntyped

variable {Γ Δ : Env} {t n : Term} {p : Position}

/-- The term itself comes first if it has no type and its parts have. -/
lemma root {e : TypingError} {v : Value} (err : t.infer Γ = .error e) (cul : e.culprit? = some v)
    (inner : t.IllAnnotated ∨ ∀ d ∈ Term.parts (Γ, t), Typeable d) :
    FirstUntyped Γ t [] Γ t := by
  refine ⟨rfl, ?_, inner, ?_⟩
  · rw [Term.hasType, err]
    cases e with
    | illTyped _ _ => rfl
    | notTerm _ => rfl
    | fault _ => cases cul
  · intro q d left
    cases left

/-- What comes first in a part comes first in the whole if the parts before it have types. -/
lemma of_part {Γ' : Env} {s : Term} {k : Nat} (first : FirstUntyped Γ' s p Δ n)
    (part : (Term.parts (Γ, t))[k]? = some (Γ', s))
    (before : ∀ d ∈ (Term.parts (Γ, t)).take k, Typeable d) :
    FirstUntyped Γ t (k :: p) Δ n := by
  refine ⟨?_, first.untyped, first.innermost, ?_⟩
  · exact Position.get?_cons_eq_some.2 ⟨_, part, first.found⟩
  · intro q d left found
    cases left with
    | @turn i _ q _ lt =>
      obtain ⟨c, part', found⟩ := Position.get?_cons_eq_some.1 found
      have mem : c ∈ (Term.parts (Γ, t)).take k := by
        apply List.mem_of_getElem? (i := i)
        rw [List.getElem?_take_of_lt lt, part']
      exact (before c mem).get? found
    | @down _ q _ left =>
      obtain ⟨c, part', found⟩ := Position.get?_cons_eq_some.1 found
      cases part.symm.trans part'
      exact first.leftmost q d left found

/-- What else has no type is around the first such part or to the right of it. It is below only
where the annotation kept inference from looking. -/
lemma around_or_right (first : FirstUntyped Γ t p Δ n) {q : Position} {d : Env × Term}
    (found : q.get? Term.parts (Γ, t) = some d) (no : ¬Typeable d) :
    q <+: p ∨ p.LeftOf q ∨ (p <+: q ∧ n.IllAnnotated) := by
  obtain above | below | left | right := Position.above_or_leftOf q p
  · exact .inl above
  · obtain ann | inner := first.innermost
    · exact .inr (.inr ⟨below, ann⟩)
    · obtain ⟨r, rfl⟩ := below
      rw [Position.get?_append, first.found] at found
      cases r with
      | nil => exact .inl (by rw [List.append_nil])
      | cons k r =>
        obtain ⟨c, part, found⟩ := Position.get?_cons_eq_some.1 found
        exact absurd ((inner c (List.mem_of_getElem? part)).get? found) no
  · exact absurd (first.leftmost q d left found) no
  · exact .inr (.inl right)

end FirstUntyped

/-! ## Inference -/

/-- The value is the first part of the term without a type. -/
def Blames (Γ : Env) (t : Term) (v : Value) : Prop :=
  ∃ (p : Position) (Δ : Env) (n : Term), v = .node n ∧ FirstUntyped Γ t p Δ n

namespace Blames

variable {Γ Γ' : Env} {t s : Term} {v : Value} {k : Nat}

/-- What is blamed in a part is blamed in the whole, if the parts before it have types. -/
lemma of_part (bl : Blames Γ' s v) (part : (Term.parts (Γ, t))[k]? = some (Γ', s))
    (before : ∀ d ∈ (Term.parts (Γ, t)).take k, Typeable d) : Blames Γ t v := by
  obtain ⟨p, Δ, n, eq, first⟩ := bl
  exact ⟨k :: p, Δ, n, eq, first.of_part part before⟩

/-- What is blamed in the first part is blamed in the whole. -/
lemma of_first (bl : Blames Γ' s v) (part : (Term.parts (Γ, t))[0]? = some (Γ', s)) :
    Blames Γ t v :=
  bl.of_part part (List.forall_mem_nil _)

end Blames

/-- A term for which a type is inferred has one. -/
lemma Term.typeable_of_infer {Γ : Env} {t : Term} {T : Ty} (eq : t.infer Γ = .ok T) :
    Typeable (Γ, t) :=
  typeable_iff.2 ⟨T, infer_eq_ok_iff.1 eq⟩

/-- Blame falls on the first part without a type. -/
lemma Term.blames_of_infer {Γ : Env} {t : Term} {e : TypingError} {v : Value}
    (err : t.infer Γ = .error e) (cul : e.culprit? = some v) : Blames Γ t v := by
  have own : ∀ {Γ : Env} {t : Term}, t.infer Γ = .error e → v = .node t →
      (t.IllAnnotated ∨ ∀ d ∈ parts (Γ, t), Typeable d) → Blames Γ t v := by
    intro Γ t err eq inner
    exact ⟨[], Γ, t, eq, .root err cul inner⟩
  induction t generalizing Γ with
  | var x =>
    apply own err (Ty.accuses_ofVar e v err cul)
    exact .inr (List.forall_mem_nil _)
  | app f a ihf iha =>
    obtain errF | ⟨F, eqF, rest⟩ := bind_eq_error_iff.1 err
    · exact (ihf errF).of_first rfl
    have okF : ∀ d ∈ [(Γ, f)], Typeable d := List.forall_mem_singleton.2 (typeable_of_infer eqF)
    obtain errA | ⟨A, eqA, rule⟩ := bind_eq_error_iff.1 rest
    · exact (iha errA).of_part (k := 1) rfl okF
    apply own err (Ty.accuses_ofApp e v rule cul)
    exact .inr (List.forall_mem_append.2
      ⟨okF, List.forall_mem_singleton.2 (typeable_of_infer eqA)⟩)
  | abs x A b ih =>
    obtain errA | ⟨_, _, rest⟩ := bind_eq_error_iff.1 err
    · obtain ⟨wf, eq⟩ := Ty.wellFormed_of_requireWellFormed errA cul
      exact own err eq (.inl ⟨x, A, b, rfl, wf⟩)
    obtain errB | ⟨B, _, rule⟩ := bind_eq_error_iff.1 rest
    · exact (ih errB).of_first rfl
    · cases rule
  | proj r l ih =>
    obtain errR | ⟨R, eqR, rule⟩ := bind_eq_error_iff.1 err
    · exact (ih errR).of_first rfl
    apply own err (Ty.accuses_ofProj e v rule cul)
    exact .inr (List.forall_mem_singleton.2 (typeable_of_infer eqR))
  | empty => cases err
  | cell l w r ihv ihr =>
    obtain errV | ⟨A, eqA, rest⟩ := bind_eq_error_iff.1 err
    · exact (ihv errV).of_first rfl
    have okV : ∀ d ∈ [(Γ, w)], Typeable d := List.forall_mem_singleton.2 (typeable_of_infer eqA)
    obtain errR | ⟨R, eqR, rule⟩ := bind_eq_error_iff.1 rest
    · exact (ihr errR).of_part (k := 1) rfl okV
    -- the rest has a type: it is the last cell that fails, by the shape of its end
    apply own err (Ty.accuses_ofCell e v rule cul)
    exact .inr (List.forall_mem_append.2
      ⟨okV, List.forall_mem_singleton.2 (typeable_of_infer eqR)⟩)
  | hole =>
    cases err
    cases cul
    exact own rfl rfl (.inr (List.forall_mem_nil _))

namespace Term

/-- What a failed inference blames stands in the term at a position where it has no type. Its own
parts have types, or else it is an abstraction with an ill-formed annotation, and everything to the
left of the position has a type. So there is no other part without a type except around this one, to
the right of it, and below such an annotation. -/
theorem infer_blames_leftmost_innermost {Γ : Env} {t : Term} {e : TypingError} {v : Value}
    (err : t.infer Γ = .error e) (cul : e.culprit? = some v) :
    ∃ (p : Position) (Δ : Env) (n : Term), v = .node n ∧ FirstUntyped Γ t p Δ n ∧
      ∀ (q : Position) d, q.get? parts (Γ, t) = some d → ¬Typeable d →
        q <+: p ∨ p.LeftOf q ∨ (p <+: q ∧ n.IllAnnotated) := by
  obtain ⟨p, Δ, n, eq, first⟩ := blames_of_infer err cul
  refine ⟨p, Δ, n, eq, first, ?_⟩
  intro q d found no
  exact first.around_or_right found no

/-- The rest of the second cell has a type below the binder, but no record type; so the second cell
is to blame, and not the first one, the abstraction, or the argument, which has no type either. -/
theorem infer_blames_leftmost_innermost_rest :
    let A : Ty := .base "A"
    let Γ : Env := OrderedMap.ofList [("r", .empty)]
    let last : Term := .cell "b" (.var "r") (.var "y")
    let t : Term := .app (.abs "y" A (.cell "a" (.var "y") last)) (.var "z")
    let e : TypingError := .illTyped (.restType A) last
    t.infer Γ = .error e ∧ e.culprit? = some (.node last) ∧
      ∃ (p : Position) (Δ : Env), FirstUntyped Γ t p Δ last := by
  intro A Γ last t e
  have err : t.infer Γ = .error e := rfl
  have cul : e.culprit? = some (.node last) := rfl
  obtain ⟨p, Δ, n, eq, first, -⟩ := infer_blames_leftmost_innermost err cul
  cases eq
  exact ⟨err, cul, p, Δ, first⟩

end Term

end RecordLambda
