import RecordLambda.Gen.Ty
import RecordLambda.Static.Env

/-!
# Random terms

A term of a given type is found by trying the rules that could end its typing in a random order: the
introduction rule of the type, a variable of that type, and, while there is depth left, an
application or a projection that has the type as its result. The rules of one depth are built upon
those of the depth below; at depth zero only introductions and variables are left, and they go down
the type.

The same search may be asked for a term of something that is no type. It finds none, but it fails
where one of its rules would have built a type around what it was asked for.

Arbitrary terms are made without looking at types.
-/

namespace RecordLambda

/-- Whether a type clearly has a term in a context. For a ground type only a variable counts. -/
def Ty.inhabited : Ty → Env → Bool
  | T, Γ =>
    Γ.entries.any (fun (_, U) => U == T) ||
      match T with
      | .arrow A B => B.inhabited (Γ.insert "_" A)
      | .empty => true
      | .cell _ A R => A.inhabited Γ && R.inhabited Γ
      | _ => false

/-- Whether a value is a type that clearly has a term in a context. -/
def Value.inhabited (v : Value) (Γ : Env) : Bool :=
  v.ty?.any fun T => T.inhabited Γ

/-- A search for a term of a type in a context. -/
abbrev Search := Ty → Env → Gen (Option Term)

/-- The variables of a type. -/
def Env.varsOf (Γ : Env) (T : Ty) : List String :=
  (Γ.entries.filter fun (_, U) => U == T).map Prod.fst

/-- A variable of the type. -/
def varRule : Search := fun T Γ =>
  match Env.varsOf Γ T with
  | [] => return none
  | xs => do return some (.var (← Gen.pick xs))

/-- Tries the rules for a type in a random order: the introduction, the variables if there are any,
and `more`. -/
def tryRules (T : Ty) (Γ : Env) (intro : Gen (Option Term)) (more : List (Gen (Option Term))) :
    Gen (Option Term) := do
  let vars := if (Env.varsOf Γ T).isEmpty then [] else [varRule T Γ]
  Gen.firstSome (← Gen.shuffle (intro :: (vars ++ more)))

/-- The rules of one depth. -/
structure Level where
  /-- Introduces a term of the type. -/
  intro : Search
  /-- Finds a term of the type by any rule. -/
  term : Search

/-- A cell, if both its parts were found. -/
def cellOf (l : String) : Option Term → Option Term → Option Term
  | some v, some r => some (.cell l v r)
  | _, _ => none

namespace Vocabulary

/-- Introduction at depth zero. The rest of a cell is always introduced, since it has to be a record
itself. -/
def groundIntro (voc : Vocabulary) : Search
  | .arrow A B, Γ => do
    let x ← Gen.pick voc.names
    let b ← tryRules B (Γ.insert x A) (voc.groundIntro B (Γ.insert x A)) []
    return b.map (.abs x A ·)
  | .empty, _ => return some .empty
  | .cell l A R, Γ => do
    let v ← tryRules A Γ (voc.groundIntro A Γ) []
    let r ← voc.groundIntro R Γ
    return cellOf l v r
  | _, _ => return none

/-- Introduction by the rules of the depth below. -/
def introRule (voc : Vocabulary) (below : Level) : Search
  | .arrow A B, Γ => do
    let x ← Gen.pick voc.names
    let b ← below.term B (Γ.insert x A)
    return b.map (.abs x A ·)
  | .empty, _ => return some .empty
  | .cell l A R, Γ => do
    let v ← below.term A Γ
    let r ← below.intro R Γ
    return cellOf l v r
  | _, _ => return none

/-- An application with a result of the type, at an argument type that clearly has a term. -/
def appRule (voc : Vocabulary) (d : Nat) (below : Level) : Search := fun T Γ => do
  let U ← voc.wfTy (min d 1)
  if !U.inhabited Γ then return none
  let f ← below.term (.arrow U T) Γ
  let a ← below.term U Γ
  match f, a with
  | some f, some a => return some (.app f a)
  | _, _ => return none

/-- At most one labelled field of a simple type. -/
def fewFields (labels : List String) (voc : Vocabulary) : Gen (List (String × Ty)) := do
  let n ← Gen.upTo 1
  Gen.times n do
    let l ← Gen.pick labels
    let A ← voc.wfTy 0
    return (l, A)

/-- A label to project, with fields to stand before and behind it. Those before it have other
labels. -/
def fieldsAround (voc : Vocabulary) :
    Gen (String × List (String × Ty) × List (String × Ty)) := do
  let l ← Gen.pick voc.labels
  let others := voc.labels.filter (· ≠ l)
  let before ← if others.isEmpty then pure [] else fewFields others voc
  let behind ← fewFields voc.labels voc
  return (l, before, behind)

/-- A projection with a result of the type. -/
def projRule (voc : Vocabulary) (below : Level) : Search := fun T Γ => do
  let (l, before, behind) ← voc.fieldsAround
  let r ← below.term (Ty.ofFields (before ++ (l, T) :: behind) .empty) Γ
  return r.map (.proj · l)

/-- The rules at a depth. -/
def level (voc : Vocabulary) : Nat → Level
  | 0 => ⟨voc.groundIntro, fun T Γ => tryRules T Γ (voc.groundIntro T Γ) []⟩
  | d + 1 =>
    let below := voc.level d
    let intro := voc.introRule below
    ⟨intro, fun T Γ => tryRules T Γ (intro T Γ) [voc.appRule d below T Γ, voc.projRule below T Γ]⟩

/-- A term of a type in a context. -/
def termOf (voc : Vocabulary) (T : Ty) (Γ : Env) (d : Option Int) : Gen (Option Term) :=
  (voc.level (voc.depth d)).term T Γ

/-- A closed value of a type: without variables and depth only introductions are left. -/
def valueOf (voc : Vocabulary) (T : Ty) : Gen (Option Term) :=
  (voc.level 0).term T ∅

/-- Where the search for a term of a value that is no type fails: at the arrow that would lead to
it, or at the cell that would hold it. -/
def refusal (voc : Vocabulary) (v : Value) (Γ : Env) : Nat → Gen (Option BuildError)
  | 0 => return none
  | d + 1 => do
    let rules ← Gen.shuffle [
      return none,
      do
        let U ← voc.wfTy (min d 1)
        return if U.inhabited Γ then some (.notType .arrowTy v) else none,
      do
        let _ ← voc.fieldsAround
        return some (.notType .cellTy v)]
    Gen.firstSome rules

/-- A term of what has to be a type, in a context. -/
def termOfValue (voc : Vocabulary) (v : Value) (Γ : Env) (d : Option Int) :
    Gen (Except BuildError (Option Term)) :=
  match v.ty? with
  | some T => .ok <$> voc.termOf T Γ d
  | none => do
    match ← voc.refusal v Γ (voc.depth d) with
    | some e => return .error e
    | none => return .ok none

/-- The usual number of tries for a closed term. -/
def usualTries : Nat := 20

/-- A closed term with its type, in so many tries. -/
def closedTerm (voc : Vocabulary) (d : Option Int) : Nat → Gen (Option (Term × Ty))
  | 0 => return none
  | tries + 1 => do
    let T ← voc.wfTy (voc.depth none)
    match ← voc.termOf T ∅ d with
    | some t => return some (t, T)
    | none => voc.closedTerm d tries

/-- Any term. -/
def anyTerm (voc : Vocabulary) : Nat → Gen Term
  | 0 => do
    let x ← Gen.pick voc.names
    Gen.pick [.var x, .empty]
  | d + 1 => do
    let g ← Gen.pick [
      do return .var (← Gen.pick voc.names),
      do
        let f ← voc.anyTerm d
        let a ← voc.anyTerm d
        return .app f a,
      do
        let x ← Gen.pick voc.names
        let A ← voc.anyTy 1
        let b ← voc.anyTerm d
        return .abs x A b,
      do
        let r ← voc.anyTerm d
        let l ← Gen.pick voc.labels
        return .proj r l,
      do return .empty,
      do
        let (l, v) ← voc.labelled (voc.anyTerm d)
        let r ← voc.anyTerm d
        return .cell l v r,
      do
        let n ← Gen.upTo 3
        let fields ← Gen.times n (voc.labelled (voc.anyTerm d))
        return Term.ofFields fields .empty]
    g

end Vocabulary

end RecordLambda
