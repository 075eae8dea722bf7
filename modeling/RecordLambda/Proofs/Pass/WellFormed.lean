import RecordLambda.Proofs.Meta.Check
import RecordLambda.Proofs.Pass.Transparent

/-!
# Well-formedness as a pass

The search for what is wrong with a type can be written as an analysis of a single layer. It visits
both sides of an arrow and the fields along the spine of a chain, and it notes what it comes to for
them. The rests of cells are passed in a loop, so they are neither looked up nor noted.

A memo changes nothing for an analysis of a single layer. So the pass comes to what the search comes
to, on anything that it is run on, `Pass.run_wellFormedness`.
-/

namespace RecordLambda

/-- A truth value. -/
def Value.ofBool (b : Bool) : Value := .scalar (.bool b)

namespace Script

/-- Visits the fields along the spine of a chain. One that is not well formed ends the loop, and so
does a rest that is no record type. -/
def spine : Ty → Script
  | .cell _ A R => .visit A fun ok =>
    if ok = .ofBool true ∧ R.isRecord then spine R else .done (.ofBool false)
  | _ => .done (.ofBool true)

/-- Visits both sides of an arrow. -/
def sides (n : Node) : Script :=
  visitChildren n fun _ oks => .done (.ofBool (oks.all (· = .ofBool true)))

end Script

/-- The analysis of types for well-formedness. -/
def Pass.wellFormedness : Pass where
  kind := .analysis
  layers := [{
    name := BuiltIn.wellFormedness.name
    title := BuiltIn.wellFormedness.title
    handlers := [
      ⟨"leaf", [.baseTy, .emptyTy], fun _ => .done (.ofBool true)⟩,
      ⟨"arrow", [.arrowTy], Script.sides⟩,
      ⟨"chain", [.cellTy], fun n => (n.ty?.map Script.spine).getD (.fail (.fault (.notType n)))⟩]
    fallback := some fun v => .fail (.fault (.notType v))
    run := some (.collect Kind.wellFormed.name)
    memo := none
    requires := some [] }]

/-! ## What is visited -/

open Pass (answered)

variable {self : Value → Except PassError Value} {T : Ty} {d : Nat} {v : Value}

/-- The loop along the spine comes to what the search comes to, if the visits of fields do. -/
lemma Script.result_spine (rec : T.isRecord)
    (fields : ∀ A : Ty, A.size < T.size → self (.node A) = answered .ofBool A.wellFormed) :
    (Script.spine T).result self = answered .ofBool T.wellFormed := by
  induction T with
  | empty => rfl
  | cell l A R _ ihR =>
    have first : self (.node A) = answered .ofBool A.wellFormed := by
      apply fields
      rw [Ty.size]
      omega
    rw [spine, result, first, Ty.wellFormed]
    rcases A.wellFormed with f | _ | _
    · rfl
    · rfl
    · cases recR : R.isRecord with
      | false => rfl
      | true =>
        show (spine R).result self = answered .ofBool R.wellFormed
        apply ihR recR
        intro B lt
        apply fields
        rw [Ty.size]
        omega
  | _ => cases rec

/-- An arrow is well formed as its sides are. -/
lemma Script.result_sides {A B : Ty} (dom : self (.node A) = answered .ofBool A.wellFormed)
    (cod : self (.node B) = answered .ofBool B.wellFormed) :
    (Script.sides (Ty.arrow A B)).result self = answered .ofBool (Ty.arrow A B).wellFormed := by
  show (do
    let a ← self (.node A)
    let b ← self (.node B)
    return Value.ofBool ([a, b].all (· = Value.ofBool true))) = _
  rw [dom, cod, Ty.wellFormed]
  rcases A.wellFormed with f | _ | _
  · rfl
  · rcases B.wellFormed with f | _ | _ <;> rfl
  · rcases B.wellFormed with f | _ | _ <;> rfl

namespace Pass

/-- By induction on the size, a visit comes to the verdict on what is visited. -/
lemma result_wellFormedness (lt : v.size < d) :
    wellFormedness.result d wellFormedness.layers v = answered .ofBool v.wellFormed := by
  induction d generalizing v with
  | zero => cases lt
  | succ d ih =>
    have smaller : ∀ A : Ty, A.size < v.size →
        wellFormedness.result d wellFormedness.layers (.node A) =
          answered .ofBool A.wellFormed := by
      intro A less
      exact ih (Nat.lt_of_lt_of_le less (Nat.le_of_lt_succ lt))
    cases v with
    | scalar s => rfl
    | tuple vs => rfl
    | node n =>
      cases n with
      | hole => rfl
      | term t => cases t <;> rfl
      | ty T =>
        cases T with
        | base x => rfl
        | empty => rfl
        | hole => rfl
        | arrow A B =>
          apply Script.result_sides
          · apply smaller
            simp only [Value.size, Node.size, Ty.size]
            omega
          · apply smaller
            simp only [Value.size, Node.size, Ty.size]
            omega
        | cell l A R => exact Script.result_spine rfl smaller

/-! ## Running the pass -/

/-- The pass comes to what the search comes to. -/
lemma run_wellFormedness (v : Value) (c : Context) :
    (wellFormedness.run v c).1 =
      (v.wellFormed.mapError PassError.fault).map fun ok =>
        .object (.custom Kind.wellFormed.name (.ofBool ok)) :=
  run_of_answered rfl rfl rfl rfl (fun _ => result_wellFormedness) c

end Pass

/-! ## What is decided -/

/-- On a concrete type the search for what is wrong comes to an answer: the one by recursion, which
is also the answer of the pass with its memo. The type is well formed if and only if all chains in
it end in the empty record type. So the fields of a well-formed record type are well formed, which
is what the check of this asks for. -/
theorem Ty.wellFormed_decides {T : Ty} (con : T.concrete) :
    T.wellFormed = .ok T.formed ∧
    (∀ c, (Pass.wellFormedness.run T c).1 =
      .ok (.object (.custom Kind.wellFormed.name (.ofBool T.formed)))) ∧
    (T.wellFormed = .ok true ↔ ∀ p C, T.Chain p C → C.chainEnd = .empty) ∧
    ∀ l, (Value.node T).lookupKeepsWellFormed l = .ok true := by
  have eq := wellFormed_eq_formed con
  refine ⟨eq, ?_, ?_, fun l => Value.lookupKeepsWellFormed_holds con⟩
  · intro c
    have eq : (Value.node T).wellFormed = .ok T.formed := eq
    rw [Pass.run_wellFormedness, eq]
    rfl
  · rw [eq, Except.ok.injEq]
    exact formed_iff_chains con

/-- Two chains, the second one in a field of the first. The first ends in the empty record type, and
the second in a ground type. -/
theorem Ty.wellFormed_decides_nested :
    let A : Ty := .base "A"
    let C : Ty := .cell "b" A A
    let T : Ty := .arrow (.cell "a" C (.cell "a" A .empty)) A
    T.concrete ∧ T.Chain [0, 0] C ∧ C.chainEnd = A ∧ T.formed = false ∧
      T.wellFormed = .ok false ∧ (¬∀ p C, T.Chain p C → C.chainEnd = .empty) ∧
      (Pass.wellFormedness.run T ∅).1 =
        .ok (.object (.custom "WellFormedResult" (.ofBool false))) ∧
      (Value.node T).lookupKeepsWellFormed "a" = .ok true := by
  intro A C T
  have con : T.concrete := rfl
  have chain : T.Chain [0, 0] C := by
    refine ⟨rfl, rfl, ?_⟩
    intro q D eq
    have eq : [0] ++ [0] = q ++ [1] := eq
    cases (List.append_singleton_inj.1 eq).2
  obtain ⟨eq, run, iff, lookup⟩ := wellFormed_decides con
  refine ⟨con, chain, rfl, rfl, eq, ?_, run ∅, lookup "a"⟩
  intro ends
  cases ends _ _ chain

end RecordLambda
