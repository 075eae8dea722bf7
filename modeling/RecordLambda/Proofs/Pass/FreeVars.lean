import RecordLambda.Pass.Manager
import RecordLambda.Proofs.Pass.Transparent

/-!
# Free variables as a pass

The free variables can be found by an analysis of a single layer. A variable has its own name, a
binder takes its name away from those of the body, and all other nodes have the names of their
children, which are none for a type.

A memo changes nothing for an analysis of a single layer. So the pass comes to the free variables,
on anything that it is run on, `Pass.run_freeVars`.
-/

namespace RecordLambda

namespace Value

/-- Some names, as a tuple of texts. -/
def ofNames (xs : List String) : Value := .tuple (xs.map fun x => .scalar (.text x))

/-- The names in a tuple of texts. -/
def names : Value → List String
  | .tuple vs => vs.map plain
  | _ => []

/-- The names are read back from the value. -/
lemma names_ofNames (xs : List String) : (ofNames xs).names = xs := by
  rw [ofNames, names, List.map_map]
  exact List.map_id xs

end Value

namespace Script

/-- The names free in any child. -/
def freeInChildren (v : Value) : Script :=
  visitChildren v fun _ vs => .done (.ofNames (vs.flatMap Value.names))

/-- The names free in the body of a binder, without that of the binder. -/
def freeInBody (n : Node) : Script :=
  visitChildren n fun n vs =>
    .done (.ofNames (((vs.drop 1).flatMap Value.names).filter (· ∉ n.fields.map Prod.snd)))

end Script

/-- The analysis for the free variables. -/
def Pass.freeVars : Pass where
  kind := .analysis
  layers := [{
    name := BuiltIn.freeVars.name
    title := BuiltIn.freeVars.title
    handlers := [
      ⟨"var", [.var], fun n => .done (.ofNames (n.fields.map Prod.snd))⟩,
      ⟨"abs", [.abs], Script.freeInBody⟩]
    fallback := some Script.freeInChildren
    run := some (.collect Kind.varSet.name)
    memo := none
    requires := some [] }]

variable {self : Value → Except PassError Value} {d : Nat} {v : Value} {n : Node}

/-- The names that come back from the children are their free variables. -/
lemma flatMap_names (ns : List Node) :
    (ns.map fun m => Value.ofNames m.freeVars).flatMap Value.names = ns.flatMap Node.freeVars := by
  simp only [List.flatMap_map, Value.names_ofNames]

/-- If the visits of the children come to their free variables, so does the script for a node. -/
lemma Script.result_freeInChildren {xs : List String}
    (each : ∀ m ∈ n.children, self m = .ok (.ofNames m.freeVars))
    (all : n.children.flatMap Node.freeVars = xs) :
    (freeInChildren n).result self = .ok (.ofNames xs) := by
  rw [freeInChildren, visitChildren, result_visitAll _ each, flatMap_names, all]
  rfl

/-- Likewise for a binder, whose name is taken out of those of the body. -/
lemma Script.result_freeInBody {xs : List String}
    (each : ∀ m ∈ n.children, self m = .ok (.ofNames m.freeVars))
    (all : (n.children.drop 1).flatMap Node.freeVars = xs) :
    (freeInBody n).result self = .ok (.ofNames (xs.filter (· ∉ n.fields.map Prod.snd))) := by
  rw [freeInBody, visitChildren, result_visitAll _ each, ← List.map_drop, flatMap_names, all]
  rfl

namespace Pass

/-- By induction on the size, a visit comes to the free variables of what is visited. -/
lemma result_freeVars (lt : v.size < d) :
    freeVars.result d freeVars.layers v = answered .ofNames v.freeVars := by
  induction d generalizing v with
  | zero => cases lt
  | succ d ih =>
    cases v with
    | scalar s => rfl
    | tuple vs => rfl
    | node n =>
      have each : ∀ m ∈ n.children,
          freeVars.result d freeVars.layers m = .ok (.ofNames m.freeVars) := by
        intro m mem
        exact ih (Nat.lt_of_lt_of_le (Node.size_lt_of_mem_children mem) (Nat.le_of_lt_succ lt))
      cases n with
      | hole => rfl
      | ty T => cases T <;> exact Script.result_freeInChildren each rfl
      | term t =>
        cases t with
        | var x => rfl
        | abs x A b =>
          refine (Script.result_freeInBody each (List.append_nil b.freeVars)).trans ?_
          show Except.ok (Value.ofNames (b.freeVars.filter (· ∉ [x]))) =
            .ok (.ofNames (b.freeVars.filter (· ≠ x)))
          simp only [List.mem_singleton, ne_eq]
        | app f a =>
          apply Script.result_freeInChildren each
          exact congrArg (f.freeVars ++ ·) (List.append_nil a.freeVars)
        | cell l w r =>
          apply Script.result_freeInChildren each
          exact congrArg (w.freeVars ++ ·) (List.append_nil r.freeVars)
        | proj r l => exact Script.result_freeInChildren each (List.append_nil r.freeVars)
        | empty => rfl
        | hole => rfl

/-- With its memo, the analysis comes to the free variables. -/
lemma run_freeVars (v : Value) (c : Context) :
    (freeVars.run v c).1 = (v.freeVars.mapError PassError.fault).map fun xs =>
      .object (.custom Kind.varSet.name (.ofNames xs)) :=
  run_of_answered rfl rfl rfl rfl (fun _ => result_freeVars) c

end Pass

end RecordLambda
