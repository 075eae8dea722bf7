import RecordLambda.Proofs.Static.Typed
import Mathlib.Data.List.Infix

/-!
# Positions

A position is the way down from a whole to one of its parts, as a list of the numbers of the parts
to go on in. Of two positions one is above the other, or they part at some place and one of them
goes to an earlier part there; then it is to the left of the other.

The parts of a term come with the contexts that they are typed in: below a binder the context is
extended. So what stands at a position of a term in a context is again a term in a context, and if
the whole has a type, so has what stands at each of its positions.

Types have positions too, without contexts.
-/

namespace RecordLambda

/-- At every turn the number of the part to go on in. -/
abbrev Position := List Nat

namespace Position

section Parts

variable {α : Type} (parts : α → List α)

/-- What stands at a position, where `parts` are the immediate parts of a thing. -/
def get? : Position → α → Option α
  | [], a => some a
  | i :: p, a => (parts a)[i]?.bind (get? p)

variable {parts} {i : Nat} {p : Position} {a b c : α}

/-- The way down goes into a part first and from there on. -/
lemma get?_cons_eq_some :
    get? parts (i :: p) a = some c ↔ ∃ b, (parts a)[i]? = some b ∧ get? parts p b = some c :=
  Option.bind_eq_some_iff

/-- Ways down may be put together. -/
lemma get?_append (p q : Position) (a : α) :
    get? parts (p ++ q) a = (get? parts p a).bind (get? parts q) := by
  induction p generalizing a with
  | nil => rfl
  | cons i p ih =>
    show (parts a)[i]?.bind _ = ((parts a)[i]?.bind _).bind _
    rw [Option.bind_assoc]
    congr 1
    funext b
    exact ih b

/-- What every part takes over from the whole goes for all that stands at a position. -/
lemma inherits {P : α → Prop} (heir : ∀ {a b}, P a → b ∈ parts a → P b) (holds : P a)
    (found : get? parts p a = some c) : P c := by
  induction p generalizing a with
  | nil =>
    cases found
    exact holds
  | cons i p ih =>
    obtain ⟨b, part, found⟩ := get?_cons_eq_some.1 found
    exact ih (heir holds (List.mem_of_getElem? part)) found

end Parts

/-- The ways part, and the first position goes to an earlier part than the second. -/
inductive LeftOf : Position → Position → Prop where
  | turn {i j p q} :
    i < j →
    LeftOf (i :: p) (j :: q)
  | down {i p q} :
    LeftOf p q →
    LeftOf (i :: p) (i :: q)

variable {p q : Position}

/-- Of two positions at most one is to the left of the other. -/
lemma LeftOf.asymm (left : LeftOf p q) : ¬LeftOf q p := by
  induction left with
  | turn lt =>
    intro right
    cases right with
    | turn gt => omega
    | down _ => omega
  | down _ ih =>
    intro right
    cases right with
    | turn lt => omega
    | down right => exact ih right

/-- One of two positions is above the other, or to its left. -/
lemma above_or_leftOf (p q : Position) : p <+: q ∨ q <+: p ∨ LeftOf p q ∨ LeftOf q p := by
  induction p generalizing q with
  | nil => exact .inl List.nil_prefix
  | cons i p ih =>
    cases q with
    | nil => exact .inr (.inl List.nil_prefix)
    | cons j q =>
      obtain lt | rfl | gt := Nat.lt_trichotomy i j
      · exact .inr (.inr (.inl (.turn lt)))
      · simp only [List.prefix_cons_inj]
        obtain above | below | left | right := ih q
        · exact .inl above
        · exact .inr (.inl below)
        · exact .inr (.inr (.inl (.down left)))
        · exact .inr (.inr (.inr (.down right)))
      · exact .inr (.inr (.inr (.turn gt)))

end Position

/-! ## Positions of a term -/

/-- The immediate parts of a term in a context, each in its own context. -/
def Term.parts : Env × Term → List (Env × Term)
  | (Γ, app f a) => [(Γ, f), (Γ, a)]
  | (Γ, abs x A b) => [(Γ.insert x A, b)]
  | (Γ, proj r _) => [(Γ, r)]
  | (Γ, cell _ v r) => [(Γ, v), (Γ, r)]
  | _ => []

/-- A term that has a type in its context. -/
def Typeable (d : Env × Term) : Prop := ∃ T, d.2.hasType d.1 = .ok (some T)

/-- A term for which inference succeeds is one with a type. -/
lemma typeable_iff {Γ : Env} {t : Term} : Typeable (Γ, t) ↔ ∃ T, Typed Γ t T := by
  simp only [Typeable, Term.hasType_eq_some_iff]

namespace Typeable

variable {p : Position} {c d : Env × Term}

/-- The parts of a term with a type have types in their contexts. -/
lemma parts (ok : Typeable c) (mem : d ∈ Term.parts c) : Typeable d := by
  obtain ⟨Γ, t⟩ := c
  obtain ⟨T, ty⟩ := typeable_iff.1 ok
  cases ty with
  | var _ _ => cases mem
  | app tyF tyA =>
    simp only [Term.parts, List.mem_cons, List.not_mem_nil, or_false] at mem
    obtain rfl | rfl := mem
    · exact typeable_iff.2 ⟨_, tyF⟩
    · exact typeable_iff.2 ⟨_, tyA⟩
  | abs _ tyB =>
    cases List.mem_singleton.1 mem
    exact typeable_iff.2 ⟨_, tyB⟩
  | proj tyR _ =>
    cases List.mem_singleton.1 mem
    exact typeable_iff.2 ⟨_, tyR⟩
  | empty => cases mem
  | cell tyV tyR _ _ =>
    simp only [Term.parts, List.mem_cons, List.not_mem_nil, or_false] at mem
    obtain rfl | rfl := mem
    · exact typeable_iff.2 ⟨_, tyV⟩
    · exact typeable_iff.2 ⟨_, tyR⟩

/-- What stands at a position of a typed term is typed in the context of the position. -/
lemma get? (ok : Typeable c) (found : p.get? Term.parts c = some d) : Typeable d :=
  Position.inherits parts ok found

end Typeable

/-! ## Parts of a type -/

/-- The immediate parts of a type. -/
def Ty.parts : Ty → List Ty
  | arrow A B => [A, B]
  | cell _ A R => [A, R]
  | _ => []

/-- What cells hand on to their field and to their rest goes for a field that is looked up. -/
lemma Ty.lookup_inherits {P : Ty → Prop} {R A : Ty} {l : String}
    (heir : ∀ {l A R}, P (cell l A R) → P A ∧ P R) (holds : P R) (sel : R.lookup l = some A) :
    P A := by
  induction R with
  | cell k B R _ ih =>
    obtain ⟨field, rest⟩ := heir holds
    rw [lookup] at sel
    split at sel
    · cases sel
      exact field
    · exact ih rest sel
  | _ => cases sel

end RecordLambda
