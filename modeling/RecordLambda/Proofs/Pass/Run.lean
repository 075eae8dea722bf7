import RecordLambda.Proofs.Pass.Memo

/-!
# Runs with and without a memo

A run asks for the objects that the pass requires, visits the root if the layers say so, and checks
what comes of it. So it depends on the memo only through what visiting the root comes to, and the
memo changes nothing unless an analysis notes a value twice, `Pass.runTo_of_memo`.
-/

namespace RecordLambda

open VisitM

/-- How the layers are run: as the first of them says that does not leave it to those below. -/
def RunMode.ofLayers : List Layer → Option RunMode
  | [] => none
  | l :: below =>
    match l.run with
    | none | some .inherit => ofLayers below
    | some mode => some mode

namespace Pass

variable {p : Pass} {d : Nat} {ls : List Layer} {v r : Value} {c : Context} {s : Visits}
  {o o' : Except PassError Value}

/-- What the layers yield if visiting the root comes to `o`. -/
def yield (p : Pass) (o : Except PassError Value) : Option RunMode → Except PassError Yield
  | none =>
    match p.kind with
    | .analysis => .error .noRun
    | .transform => o.map .value
  | some (.collect name) => o.map fun v => .object (.custom name v)
  | some (.const c) => .ok (.value c)
  | some _ => o.map .value

/-- Whether the layers visit the root. -/
def visitsRoot (p : Pass) : Option RunMode → Bool
  | none => p.kind == .transform
  | some (.const _) => false
  | some _ => true

/-- What a run comes to if visiting the root comes to `o`. -/
def outcome (p : Pass) (o : Except PassError Value) (c : Context) : Except PassError Product := do
  ensure p.title p.requires c
  let y ← p.yield o (RunMode.ofLayers p.layers)
  p.accept y

/-- The run gets to visiting the root. -/
def Begins (p : Pass) (c : Context) : Prop :=
  ensure p.title p.requires c = .ok () ∧ p.visitsRoot (RunMode.ofLayers p.layers) = true

/-- To turn a result into another turns the outcome. -/
lemma runOn_map {α β : Type} (f : α → β) (x : VisitM α) (s : Visits) :
    ((do return f (← x) : VisitM β).runOn s).1 = (x.runOn s).1.map f := by
  rw [runOn_bind]
  rcases x.runOn s with ⟨e | a, s'⟩
  · rfl
  · rfl

/-- What the layers run comes to is seen from the outcome of the visit of the root. -/
lemma runOn_runFrom (p : Pass) (d : Nat) (ls : List Layer) (v : Value) (s : Visits) :
    ((p.runFrom d ls v).runOn s).1 =
      p.yield ((p.visit d v).runOn s).1 (RunMode.ofLayers ls) := by
  induction ls with
  | nil =>
    rw [runFrom, RunMode.ofLayers, yield]
    cases p.kind with
    | analysis => rfl
    | transform => exact runOn_map _ _ s
  | cons l below ih =>
    rw [runFrom, RunMode.ofLayers]
    cases l.run with
    | none => exact ih
    | some mode =>
      cases mode with
      | inherit => exact ih
      | collect name => exact runOn_map _ _ s
      | visit => exact runOn_map _ _ s
      | const c => rfl

/-- What a run comes to is seen from the outcome of the visit of the root. -/
lemma runTo_eq_outcome (p : Pass) (d : Nat) (v : Value) (c : Context) :
    (p.runTo d v c).1 = p.outcome ((p.visit d v).runOn ⟨[], []⟩).1 c := by
  rw [runTo, outcome, ← runOn_runFrom]
  cases ensure p.title p.requires c with
  | error e => rfl
  | ok _ =>
    have run : (ExceptT.run (p.runFrom d p.layers v)).run ⟨[], []⟩ =
        (p.runFrom d p.layers v).runOn ⟨[], []⟩ := rfl
    dsimp only
    rw [run]
    rcases (p.runFrom d p.layers v).runOn ⟨[], []⟩ with ⟨e | y, s⟩
    · rfl
    · rfl

/-- A run that visits the root fails as the visit does. -/
lemma yield_error {m : Option RunMode} (visits : p.visitsRoot m = true) (e : PassError) :
    p.yield (.error e) m = .error e := by
  obtain _ | mode := m
  · have kind : p.kind = .transform := beq_iff_eq.1 visits
    rw [yield, kind]
    rfl
  cases mode with
  | const c => cases visits
  | _ => rfl

/-- A run that does not visit the root does not depend on the visit. -/
lemma yield_of_not_visits {m : Option RunMode} (no : p.visitsRoot m = false)
    (o o' : Except PassError Value) : p.yield o m = p.yield o' m := by
  obtain _ | mode := m
  · have kind : p.kind = .analysis := by
      cases kind : p.kind with
      | analysis => rfl
      | transform => exact absurd kind (beq_eq_false_iff_ne.1 no)
    rw [yield, yield, kind]
  cases mode with
  | const c => rfl
  | _ => cases no

/-- A run that begins fails as the visit of the root does. -/
lemma outcome_error (begins : p.Begins c) (e : PassError) : p.outcome (.error e) c = .error e := by
  rw [outcome, begins.1, yield_error begins.2]
  rfl

/-- A run that does not begin does not depend on the visit of the root. -/
lemma outcome_of_not_begins (no : ¬p.Begins c) (o o' : Except PassError Value) :
    p.outcome o c = p.outcome o' c := by
  rw [outcome, outcome]
  cases met : ensure p.title p.requires c with
  | error e => rfl
  | ok _ =>
    have quiet : p.visitsRoot (RunMode.ofLayers p.layers) = false :=
      Bool.eq_false_iff.2 fun visits => no ⟨met, visits⟩
    rw [yield_of_not_visits quiet o o']

/-! ## Without a memo -/

/-- The pass with its memo switched on or off. -/
def withMemo (p : Pass) (on : Bool) : Pass :=
  { p with layers := p.layers.map fun l => { l with memo := some on } }

/-- The memo is as it is set. -/
lemma memo_withMemo (some_layer : p.layers ≠ []) (on : Bool) : (p.withMemo on).memo = on := by
  obtain ⟨l, below, eq⟩ := List.exists_cons_of_ne_nil some_layer
  rw [memo, withMemo, eq]
  rfl

/-- The results do not depend on the memo. -/
lemma result_withMemo (p : Pass) (on : Bool) (d : Nat) (ls : List Layer) (v : Value) :
    (p.withMemo on).result d (ls.map fun l => { l with memo := some on }) v = p.result d ls v := by
  induction d generalizing ls v with
  | zero => rfl
  | succ d ih =>
    have same : (p.withMemo on).result d (p.withMemo on).layers = p.result d p.layers :=
      funext (ih p.layers)
    cases ls with
    | nil => exact congrArg (Script.result · (p.kind.base v)) same
    | cons l below =>
      rw [List.map_cons, result, result, same]
      have script : Layer.scriptFor { l with memo := some on } v = l.scriptFor v := rfl
      rw [script]
      cases l.scriptFor v with
      | none => exact ih below v
      | some call => rfl

lemma ofLayers_withMemo (on : Bool) (ls : List Layer) :
    RunMode.ofLayers (ls.map fun l => { l with memo := some on }) = RunMode.ofLayers ls := by
  induction ls with
  | nil => rfl
  | cons l below ih =>
    rw [List.map_cons, RunMode.ofLayers, RunMode.ofLayers, ih]

lemma title_withMemo (p : Pass) (on : Bool) : (p.withMemo on).title = p.title := by
  rw [title, title, withMemo]
  cases p.layers <;> rfl

lemma requires_withMemo (p : Pass) (on : Bool) : (p.withMemo on).requires = p.requires := by
  rw [requires, requires, withMemo, List.findSome?_map]
  rfl

/-- The outcome depends on the memo only through the visit of the root. -/
lemma outcome_withMemo (p : Pass) (on : Bool) (o : Except PassError Value) (c : Context) :
    (p.withMemo on).outcome o c = p.outcome o c := by
  have accepts : (p.withMemo on).accept = p.accept := by
    funext y
    unfold accept
    rw [title_withMemo]
    rfl
  rw [outcome, outcome, title_withMemo, requires_withMemo, accepts]
  have mode : RunMode.ofLayers (p.withMemo on).layers = _ := ofLayers_withMemo on p.layers
  rw [mode]
  rfl

/-- Without a memo a run comes to what the result of the root makes of it. -/
lemma runTo_withMemo_false (some_layer : p.layers ≠ []) (d : Nat) (v : Value) (c : Context) :
    ((p.withMemo false).runTo d v c).1 = p.outcome (p.result d p.layers v) c := by
  obtain ⟨s, run⟩ := exists_runOn_visitFrom (memo_withMemo some_layer false) d
    (p.withMemo false).layers v ⟨[], []⟩
  rw [runTo_eq_outcome, visit, run, outcome_withMemo]
  exact congrArg (p.outcome · c) (result_withMemo p false d p.layers v)

/-- Without a memo whatever is done by visits alone comes to what the results of visits make of
it. -/
lemma exec_withMemo_false (some_layer : p.layers ≠ []) (d : Nat) (body : Script) :
    ((body.exec ((p.withMemo false).visit d)).runOn ⟨[], []⟩).1 =
      body.result (p.result d p.layers) := by
  obtain ⟨s, run⟩ := Script.exists_runOn_exec
    (exists_runOn_visitFrom (memo_withMemo some_layer false) d (p.withMemo false).layers)
    body ⟨[], []⟩
  have results : (p.withMemo false).result d (p.withMemo false).layers = p.result d p.layers :=
    funext (result_withMemo p false d p.layers)
  rw [← results]
  exact congrArg Prod.fst run

/-! ## With a memo -/

lemma sound_empty (p : Pass) : p.Sound ⟨[], []⟩ := nofun

/-- With a memo a run fails if it gets to a value that an analysis notes twice. Otherwise it comes
to the same as without. -/
lemma runTo_of_memo (memo : p.memo = true) (some_layer : p.layers ≠ [])
    (ends : ((p.withMemo false).runTo d v c).1 ≠ .error .tooDeep) :
    (p.Begins c ∧ p.Clash v → (p.runTo d v c).1 = .error .noted) ∧
      (¬(p.Begins c ∧ p.Clash v) → (p.runTo d v c).1 = ((p.withMemo false).runTo d v c).1) := by
  rw [runTo_withMemo_false some_layer] at ends ⊢
  rw [runTo_eq_outcome, visit]
  by_cases begins : p.Begins c
  · have ends' : p.result d p.layers v ≠ .error .tooDeep := by
      intro deep
      rw [deep, outcome_error begins] at ends
      exact ends rfl
    have follows := follows_visit memo some_layer (sound_empty p) ends'
    generalize (p.visitFrom d p.layers v).runOn ⟨[], []⟩ = x at follows
    cases follows with
    | clash clash =>
      exact ⟨fun _ => outcome_error begins _, fun no => absurd ⟨begins, clash⟩ no⟩
    | fail no eq =>
      rw [eq]
      exact ⟨fun clash => absurd clash.2 no, fun _ => rfl⟩
    | done no eq =>
      rw [eq]
      exact ⟨fun clash => absurd clash.2 no, fun _ => rfl⟩
  · -- nothing is visited, so nothing is looked up or noted
    exact ⟨fun clash => absurd clash.1 begins, fun _ => outcome_of_not_begins begins _ _⟩

/-- Likewise for whatever is done by visits alone. -/
lemma exec_of_memo {body : Script} (memo : p.memo = true) (some_layer : p.layers ≠ [])
    (ends : ((body.exec ((p.withMemo false).visit d)).runOn ⟨[], []⟩).1 ≠ .error .tooDeep) :
    ((∃ w, body.Calls p.Comes w ∧ p.Clash w) →
      ((body.exec (p.visit d)).runOn ⟨[], []⟩).1 = .error .noted) ∧
    ((¬∃ w, body.Calls p.Comes w ∧ p.Clash w) →
      ((body.exec (p.visit d)).runOn ⟨[], []⟩).1 =
        ((body.exec ((p.withMemo false).visit d)).runOn ⟨[], []⟩).1) := by
  rw [exec_withMemo_false some_layer] at ends ⊢
  have follows := follows_exec (fun _ _ => follows_visit memo some_layer) (sound_empty p) ends
  have visits : p.visitFrom d p.layers = p.visit d := rfl
  rw [visits] at follows
  generalize (body.exec (p.visit d)).runOn ⟨[], []⟩ = x at follows
  cases follows with
  | clash clash => exact ⟨fun _ => rfl, fun no => absurd clash no⟩
  | fail no eq => exact ⟨fun clash => absurd clash no, fun _ => eq.symm⟩
  | done no eq => exact ⟨fun clash => absurd clash no, fun _ => eq.symm⟩

end Pass

end RecordLambda
