import RecordLambda.Proofs.Pass.Run

/-!
# Analyses that build on analyses

A layer that is put above the layers of an analysis leaves to them the values that it has no script
for. They note such a value when they are done with it, and then the layer is about to note it
again. So with a memo the analysis fails as soon as a value is left to the layers below that has a
result, and this is the only way in which it differs from the analysis without a memo.

In particular a layer that adds nothing makes every run fail that would come to an object.
-/

namespace RecordLambda

/-- The layer adds nothing to those below: it leaves all values to them and is run as they are. -/
structure Layer.AddsNothing (l : Layer) (below : List Layer) : Prop where
  handlers : l.handlers = []
  fallback : l.fallback = none
  requires : l.requires = none
  run : RunMode.ofLayers (l :: below) = RunMode.ofLayers below

/-- A layer that adds nothing handles nothing. -/
lemma Layer.AddsNothing.scriptFor {l : Layer} {below : List Layer} (nothing : l.AddsNothing below)
    (v : Value) : l.scriptFor v = none := by
  have handled : l.handled v = none := by
    cases v with
    | node n =>
      rw [Layer.handled, handlerFor, nothing.handlers]
      refine Option.map_eq_none_iff.2 (List.findSome?_eq_none_iff.2 fun _ _ => rfl)
    | scalar => rfl
    | tuple => rfl
  rw [Layer.scriptFor, handled, nothing.fallback]
  rfl

/-- Whether the context will do does not depend on the title of the pass. -/
lemma ensure_ok_iff {title title' : String} {ks : List Kind} {c : Context} :
    ensure title ks c = .ok () ↔ ensure title' ks c = .ok () := by
  unfold ensure
  split
  · exact ⟨nofun, nofun⟩
  · split
    · exact Iff.rfl
    · exact ⟨nofun, nofun⟩

namespace Pass

variable {p : Pass} {l : Layer} {d : Nat} {ls : List Layer} {v w r : Value} {c : Context}
  {o : Except PassError Value} {x : Product}

/-- The pass with a layer above its own. -/
def extend (p : Pass) (l : Layer) : Pass := { p with layers := l :: p.layers }

/-- Visiting the value leads to one that has a result and that the layer leaves to those below. -/
def LeftBy (p : Pass) (l : Layer) (v : Value) : Prop :=
  ∃ w r, p.Reaches v w ∧ l.scriptFor w = none ∧ p.Comes w r

/-- A further layer on an analysis makes two notes of a value just if it leaves it to the layers
below. -/
lemma clash_extend_iff (analysis : p.kind = .analysis) (some_layer : p.layers ≠ []) :
    (p.extend l).Clash v ↔ (p.extend l).LeftBy l v := by
  constructor
  · rintro ⟨w, reaches, _, falls, r, comes⟩
    exact ⟨w, r, reaches, falls.1, comes⟩
  · rintro ⟨w, r, reaches, left, comes⟩
    exact ⟨w, reaches, analysis, ⟨left, some_layer⟩, r, comes⟩

/-! ## Layers that add nothing -/

/-- A visit by a layer that adds nothing takes one more step to come to the layers below. -/
lemma result_layers_extend (nothing : l.AddsNothing p.layers)
    (below : (p.extend l).result d p.layers v ≠ .error .tooDeep →
      p.result d p.layers v = (p.extend l).result d p.layers v)
    (ends : (p.extend l).result (d + 1) (p.extend l).layers v ≠ .error .tooDeep) :
    p.result (d + 1) p.layers v = (p.extend l).result (d + 1) (p.extend l).layers v := by
  have step : (p.extend l).result (d + 1) (p.extend l).layers v =
      (p.extend l).result d p.layers v := by
    rw [extend, result, nothing.scriptFor]
  rw [step] at ends ⊢
  have ends' : p.result d p.layers v ≠ .error .tooDeep := by rwa [below ends]
  rw [result_succ ends', below ends]

/-- A layer that adds nothing does not change the results of the layers below. -/
lemma result_extend (nothing : l.AddsNothing p.layers)
    (ends : (p.extend l).result d ls v ≠ .error .tooDeep) :
    p.result d ls v = (p.extend l).result d ls v := by
  induction d using Nat.strongRecOn generalizing ls v with
  | _ d ih =>
    cases d with
    | zero => exact absurd rfl ends
    | succ d =>
      have same : ∀ u, (p.extend l).result d (p.extend l).layers u ≠ .error .tooDeep →
          p.result d p.layers u = (p.extend l).result d (p.extend l).layers u := by
        intro u ends
        cases d with
        | zero => exact absurd rfl ends
        | succ d => exact result_layers_extend nothing (ih d (by omega)) ends
      cases ls with
      | nil => exact Script.result_eq_of_more same ends
      | cons l' below =>
        rw [result] at ends ⊢
        rw [result]
        cases eq : l'.scriptFor v with
        | none =>
          rw [eq] at ends
          exact ih d (Nat.lt_succ_self d) ends
        | some call =>
          rw [eq] at ends
          exact Script.result_eq_of_more same ends

/-- A layer that adds nothing does not change what visits come to. -/
lemma result_eq_extend (nothing : l.AddsNothing p.layers)
    (ends : (p.extend l).result d (p.extend l).layers v ≠ .error .tooDeep) :
    p.result d p.layers v = (p.extend l).result d (p.extend l).layers v := by
  cases d with
  | zero => exact absurd rfl ends
  | succ d => exact result_layers_extend nothing (result_extend nothing) ends

/-- An analysis does not come to a value for the root. -/
lemma accept_value_ne_ok (analysis : p.kind = .analysis) (v : Value) :
    p.accept (.value v) ≠ .ok x := by
  unfold accept
  rw [analysis]
  dsimp only
  split
  · nofun
  · nofun

/-- An analysis comes to an object only by collecting the result of the root. -/
lemma exists_of_outcome_ok (analysis : p.kind = .analysis) (ok : p.outcome o c = .ok x) :
    ensure p.title p.requires c = .ok () ∧ ∃ name r,
      RunMode.ofLayers p.layers = some (.collect name) ∧ o = .ok r ∧
      x = .object (.custom name r) := by
  rw [outcome] at ok
  cases met : ensure p.title p.requires c with
  | error e =>
    rw [met] at ok
    cases ok
  | ok _ =>
    rw [met] at ok
    refine ⟨rfl, ?_⟩
    generalize RunMode.ofLayers p.layers = m at ok
    have ok : (p.yield o m >>= p.accept) = .ok x := ok
    have value : (o.map Yield.value >>= p.accept) ≠ .ok x := by
      intro ok
      cases o with
      | error e => cases ok
      | ok r => exact accept_value_ne_ok analysis r ok
    obtain _ | mode := m
    · rw [yield, analysis] at ok
      cases ok
    cases mode with
    | collect name =>
      cases o with
      | error e => cases ok
      | ok r =>
        have ok : p.accept (.object (.custom name r)) = .ok x := ok
        rw [accept, analysis] at ok
        cases ok
        exact ⟨name, r, rfl, rfl, rfl⟩
    | const v => exact absurd ok (accept_value_ne_ok analysis v)
    | visit => exact absurd ok value
    | inherit => exact absurd ok value

/-- A layer without requirements leaves those of the pass. -/
lemma requires_extend (leaves : l.requires = none) : (p.extend l).requires = p.requires := by
  rw [requires, extend, List.findSome?_cons, leaves]
  rfl

/-- Without a memo a layer that adds nothing leaves an analysis as it is. With one the analysis no
longer comes to any object. -/
lemma runTo_extend_of_addsNothing (analysis : p.kind = .analysis) (some_layer : p.layers ≠ [])
    (memo : (p.extend l).memo = true) (nothing : l.AddsNothing p.layers)
    (ends : (((p.extend l).withMemo false).runTo d v c).1 ≠ .error .tooDeep)
    (ok : ((p.withMemo false).runTo d v c).1 = .ok x) :
    (((p.extend l).withMemo false).runTo d v c).1 = .ok x ∧
      ((p.extend l).runTo d v c).1 = .error .noted := by
  have some_layer' : (p.extend l).layers ≠ [] := List.cons_ne_nil _ _
  have off := runTo_withMemo_false some_layer' d v c
  rw [runTo_withMemo_false some_layer] at ok
  -- the object is that of the result of the root, and so it is with the further layer
  obtain ⟨met, name, r, mode, res, rfl⟩ := exists_of_outcome_ok analysis ok
  have met' : ensure (p.extend l).title (p.extend l).requires c = .ok () := by
    rw [requires_extend nothing.requires]
    exact ensure_ok_iff.1 met
  have mode' : RunMode.ofLayers (p.extend l).layers = some (.collect name) :=
    nothing.run.trans mode
  have begins : (p.extend l).Begins c := ⟨met', by rw [mode']; rfl⟩
  have deep : (p.extend l).result d (p.extend l).layers v ≠ .error .tooDeep := by
    intro deep
    rw [off, deep, outcome_error begins] at ends
    exact ends rfl
  have res' : (p.extend l).result d (p.extend l).layers v = .ok r := by
    rw [← result_eq_extend nothing deep, res]
  refine ⟨?_, ?_⟩
  · rw [off, res', outcome, met', mode']
    have kind : (p.extend l).kind = .analysis := analysis
    show (p.extend l).accept (.object (.custom name r)) = _
    rw [accept, kind]
  · refine (runTo_of_memo memo some_layer' ends).1 ⟨begins, ?_⟩
    rw [clash_extend_iff analysis some_layer]
    exact ⟨v, r, .refl, nothing.scriptFor v, d, res'⟩

/-- Likewise for whatever begins with a visit and is done by visits alone. -/
lemma exec_extend_of_addsNothing {n : Node} {k : Value → Script} (analysis : p.kind = .analysis)
    (some_layer : p.layers ≠ []) (memo : (p.extend l).memo = true)
    (nothing : l.AddsNothing p.layers)
    (ends : (((Script.visit n k).exec (((p.extend l).withMemo false).visit d)).runOn ⟨[], []⟩).1 ≠
      .error .tooDeep)
    (ok : (((Script.visit n k).exec ((p.withMemo false).visit d)).runOn ⟨[], []⟩).1 = .ok r) :
    (((Script.visit n k).exec (((p.extend l).withMemo false).visit d)).runOn ⟨[], []⟩).1 = .ok r ∧
      (((Script.visit n k).exec ((p.extend l).visit d)).runOn ⟨[], []⟩).1 = .error .noted := by
  have some_layer' : (p.extend l).layers ≠ [] := List.cons_ne_nil _ _
  have off := exec_withMemo_false some_layer' d (.visit n k)
  have same : (Script.visit n k).result ((p.extend l).result d (p.extend l).layers) = .ok r := by
    rw [off] at ends
    rw [exec_withMemo_false some_layer] at ok
    rw [← ok]
    exact (Script.result_eq_of_more (fun _ => result_eq_extend nothing) ends).symm
  refine ⟨off.trans same, (exec_of_memo memo some_layer' ends).1 ⟨n, .now, ?_⟩⟩
  -- the visit has a result, since all of it has one
  rw [clash_extend_iff analysis some_layer]
  rw [Script.result] at same
  cases first : (p.extend l).result d (p.extend l).layers n with
  | error e =>
    rw [first] at same
    cases same
  | ok r' => exact ⟨n, r', .refl, nothing.scriptFor n, d, first⟩

/-! ## Further layers -/

/-- With a memo, an analysis that puts a layer above another analysis fails if it gets to a value
that has a result and that the layer leaves to those below. Otherwise it comes to the same as
without a memo. So if the layer adds nothing, it fails wherever the analysis below comes to an
object. Likewise for anything else that is done with the pass by visits alone. -/
theorem runTo_extend_analysis (p : Pass) (l : Layer) (analysis : p.kind = .analysis)
    (some_layer : p.layers ≠ []) (memo : (p.extend l).memo = true) :
    (∀ d v c, (((p.extend l).withMemo false).runTo d v c).1 ≠ .error .tooDeep →
      ((p.extend l).Begins c ∧ (p.extend l).LeftBy l v →
        ((p.extend l).runTo d v c).1 = .error .noted) ∧
      (¬((p.extend l).Begins c ∧ (p.extend l).LeftBy l v) →
        ((p.extend l).runTo d v c).1 = (((p.extend l).withMemo false).runTo d v c).1) ∧
      (l.AddsNothing p.layers → ∀ x, ((p.withMemo false).runTo d v c).1 = .ok x →
        (((p.extend l).withMemo false).runTo d v c).1 = .ok x ∧
        ((p.extend l).runTo d v c).1 = .error .noted)) ∧
    ∀ d (body : Script),
      ((body.exec (((p.extend l).withMemo false).visit d)).runOn ⟨[], []⟩).1 ≠ .error .tooDeep →
      ((∃ w, body.Calls (p.extend l).Comes w ∧ (p.extend l).LeftBy l w) →
        ((body.exec ((p.extend l).visit d)).runOn ⟨[], []⟩).1 = .error .noted) ∧
      ((¬∃ w, body.Calls (p.extend l).Comes w ∧ (p.extend l).LeftBy l w) →
        ((body.exec ((p.extend l).visit d)).runOn ⟨[], []⟩).1 =
          ((body.exec (((p.extend l).withMemo false).visit d)).runOn ⟨[], []⟩).1) ∧
      (l.AddsNothing p.layers → ∀ n k r, body = .visit n k →
        ((body.exec ((p.withMemo false).visit d)).runOn ⟨[], []⟩).1 = .ok r →
        ((body.exec (((p.extend l).withMemo false).visit d)).runOn ⟨[], []⟩).1 = .ok r ∧
        ((body.exec ((p.extend l).visit d)).runOn ⟨[], []⟩).1 = .error .noted) := by
  constructor
  · intro d v c ends
    have runs := runTo_of_memo memo (List.cons_ne_nil _ _) ends
    rw [clash_extend_iff analysis some_layer] at runs
    refine ⟨runs.1, runs.2, fun nothing x ok => ?_⟩
    exact runTo_extend_of_addsNothing analysis some_layer memo nothing ends ok
  · intro d body ends
    have runs := exec_of_memo memo (List.cons_ne_nil _ _) ends
    simp only [clash_extend_iff analysis some_layer] at runs
    refine ⟨runs.1, runs.2, ?_⟩
    rintro nothing n k r rfl ok
    exact exec_extend_of_addsNothing analysis some_layer memo nothing ends ok

/-- A layer that handles all nodes itself, above one that handles terms. The two children of the
root are the same, and the second is not visited again. -/
theorem runTo_extend_analysis_all :
    let h : Handler := ⟨"h", [.term], fun _ => .done (.scalar (.int 5))⟩
    let g : Handler := ⟨"g", [.node], fun n => (Action.sum 1).script n⟩
    let p : Pass := ⟨.analysis, [⟨"P", "p", [h], none, some (.collect "Count"), none, none⟩]⟩
    let l : Layer := ⟨"Q", "q", [g], none, some (.collect "Count"), none, none⟩
    let v : Value := .node (Term.app (.var "x") (.var "x"))
    (p.extend l).memo = true ∧
      ((p.extend l).runTo 5 v ∅).1 = .ok (.object (.custom "Count" (.scalar (.int 3)))) := by
  intro h g p l v
  have off : (((p.extend l).withMemo false).runTo 5 v ∅).1 =
      .ok (.object (.custom "Count" (.scalar (.int 3)))) := rfl
  have ends : (((p.extend l).withMemo false).runTo 5 v ∅).1 ≠ .error .tooDeep := by
    rw [off]
    nofun
  have runs := (runTo_extend_analysis p l rfl (List.cons_ne_nil _ _) rfl).1 5 v ∅ ends
  refine ⟨rfl, (runs.2.1 ?_).trans off⟩
  rintro ⟨_, w, r, reaches, left, _⟩
  obtain ⟨n, rfl⟩ := reaches.exists_node
  have handles : ∀ f : Form, l.handlerFor f = some g := by
    intro f
    cases f <;> rfl
  rw [Layer.scriptFor, Layer.handled, handles] at left
  cases left

/-- Two layers without any handlers. The first alone collects the results below the root, which are
none, and so does the second without a memo. With a memo it fails. -/
theorem runTo_extend_noted :
    let q : Layer := ⟨"P", "p", [], none, some (.collect "Count"), none, none⟩
    let p : Pass := ⟨.analysis, [q]⟩
    let l : Layer := { q with name := "Q", title := "q" }
    let v : Value := .node (Term.var "x")
    l.AddsNothing p.layers ∧
      (p.run v ∅).1 = .ok (.object (.custom "Count" (.tuple []))) ∧
      (((p.extend l).withMemo false).run v ∅).1 = .ok (.object (.custom "Count" (.tuple []))) ∧
      ((p.extend l).run v ∅).1 = .error .noted := by
  intro q p l v
  exact ⟨⟨rfl, rfl, rfl, rfl⟩, rfl, rfl, rfl⟩

end Pass

end RecordLambda
