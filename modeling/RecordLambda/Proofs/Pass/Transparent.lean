import RecordLambda.Proofs.Pass.Run

/-!
# Where a memo changes nothing

A value is noted twice only where a layer of an analysis leaves it to a layer below. A transform
may note a value as often as it likes, and in an analysis of a single layer there is no layer below,
so for these there is no clash, `Pass.not_clash`. Then the memo is not seen from outside, except
that less is visited: a run comes to the same with it and without.

The error that a value is noted twice may still occur, since scripts may fail as they please. But
then it comes from a script of the pass, `Pass.Raises`.

A judgment that is written as a pass of a single layer is then known from its visits alone: if they
come to the answer of a function, so does the run, memo and all, `Pass.run_of_answered`.
-/

namespace RecordLambda

open VisitM

/-! ## Errors of scripts -/

/-- The script itself comes to the error, if visits have the right results. -/
inductive Script.Raises (e : PassError) : Script → Prop where
  | fail :
    Raises e (.fail e)
  | visit {n k r} :
    Raises e (k r) →
    Raises e (.visit n k)

namespace Script

variable {e : PassError}

/-- A script that fails raises the error itself, or one of its visits does. -/
lemma raises_of_result {self : Value → Except PassError Value} {script : Script}
    (eq : script.result self = .error e) : script.Raises e ∨ ∃ v, self v = .error e := by
  induction script with
  | done v => cases eq
  | fail e' =>
    cases eq
    exact .inl .fail
  | visit n k ih =>
    rw [result] at eq
    rcases first : self n with e' | r
    · rw [first] at eq
      cases eq
      exact .inr ⟨n, first⟩
    · rw [first] at eq
      exact (ih r eq).imp_left .visit

/-- Visits of several nodes raise nothing but what comes after them. -/
lemma exists_raises_of_visitAll {ns : List Node} {k : List Value → Script}
    (raises : (visitAll ns k).Raises e) : ∃ vs, (k vs).Raises e := by
  induction ns generalizing k with
  | nil => exact ⟨[], raises⟩
  | cons n ns ih =>
    cases raises with
    | @visit _ _ r raises =>
      obtain ⟨vs, raises⟩ := ih raises
      exact ⟨r :: vs, raises⟩

/-- Visits of the children raise nothing but what comes after them, or that there are none. -/
lemma exists_raises_of_visitChildren {v : Value} {k : Node → List Value → Script}
    (raises : (visitChildren v k).Raises e) (other : e ≠ .fault (.childless v)) :
    ∃ n vs, (k n vs).Raises e := by
  cases v with
  | node n =>
    obtain ⟨vs, raises⟩ := exists_raises_of_visitAll raises
    exact ⟨n, vs, raises⟩
  | scalar =>
    cases raises
    exact absurd rfl other
  | tuple =>
    cases raises
    exact absurd rfl other

end Script

/-- What is done by default does not raise that a value was noted before. -/
lemma PassKind.not_raises_noted (k : PassKind) (v : Value) : ¬(k.base v).Raises .noted := by
  intro raises
  cases k with
  | analysis =>
    obtain ⟨n, vs, raises⟩ := Script.exists_raises_of_visitChildren raises (by intro eq; cases eq)
    cases raises
  | transform =>
    obtain ⟨n, vs, raises⟩ := Script.exists_raises_of_visitChildren raises (by intro eq; cases eq)
    split at raises
    · cases raises
    · cases raises

namespace Pass

variable {p : Pass} {d d' : Nat} {ls : List Layer} {v : Value} {c : Context}
  {o : Except PassError Value}

/-- A script of the pass itself comes to the error. -/
def Raises (p : Pass) (e : PassError) : Prop :=
  ∃ l ∈ p.layers, ∃ v label script, l.scriptFor v = some (label, script) ∧ script.Raises e

/-- If a visit comes to the error that a value was noted before, some handler raises it. -/
lemma raises_of_result (sub : ls ⊆ p.layers) (eq : p.result d ls v = .error .noted) :
    p.Raises .noted := by
  induction d generalizing ls v with
  | zero => cases eq
  | succ d ih =>
    cases ls with
    | nil =>
      obtain raises | ⟨w, eq⟩ := Script.raises_of_result eq
      · exact absurd raises (PassKind.not_raises_noted p.kind v)
      · exact ih (List.Subset.refl _) eq
    | cons l below =>
      obtain ⟨mem, sub⟩ := List.cons_subset.1 sub
      rw [result] at eq
      cases call : l.scriptFor v with
      | none =>
        rw [call] at eq
        exact ih sub eq
      | some entry =>
        rw [call] at eq
        obtain raises | ⟨w, eq⟩ := Script.raises_of_result eq
        · exact ⟨l, mem, v, entry.1, entry.2, call, raises⟩
        · exact ih (List.Subset.refl _) eq

/-- A context that will not do is another error. -/
lemma ensure_ne_noted {title : String} {ks : List Kind} : ensure title ks c ≠ .error .noted := by
  unfold ensure
  intro eq
  split at eq
  · cases eq
  · split at eq
    · cases eq
    · cases eq

/-- A result that is not accepted is another error. -/
lemma accept_ne_noted {y : Yield} : p.accept y ≠ .error .noted := by
  intro eq
  unfold accept at eq
  cases y with
  | object o =>
    dsimp only at eq
    split at eq
    · cases eq
    · cases eq
  | value v =>
    dsimp only at eq
    split at eq
    · cases eq
    · cases eq
    · split at eq
      · cases eq
      · cases eq

/-- The run of the layers comes to this error only through the visit of the root. -/
lemma eq_of_yield_noted {m : Option RunMode} (eq : p.yield o m = .error .noted) :
    o = .error .noted := by
  have of_map : ∀ {f : Value → Yield}, o.map f = .error .noted → o = .error .noted := by
    intro f eq
    cases o with
    | error e =>
      cases eq
      rfl
    | ok r => cases eq
  obtain _ | mode := m
  · rw [yield] at eq
    cases kind : p.kind with
    | analysis =>
      rw [kind] at eq
      cases eq
    | transform =>
      rw [kind] at eq
      exact of_map eq
  cases mode with
  | const c => cases eq
  | collect name => exact of_map eq
  | visit => exact of_map eq
  | inherit => exact of_map eq

/-- A run comes to this error only through the visit of the root. -/
lemma eq_of_outcome_noted (eq : p.outcome o c = .error .noted) : o = .error .noted := by
  rw [outcome] at eq
  cases met : ensure p.title p.requires c with
  | error e =>
    rw [met] at eq
    cases eq
    exact absurd met ensure_ne_noted
  | ok _ =>
    rw [met] at eq
    have eq : (p.yield o (RunMode.ofLayers p.layers) >>= p.accept) = .error .noted := eq
    cases y : p.yield o (RunMode.ofLayers p.layers) with
    | ok y' =>
      rw [y] at eq
      exact absurd eq accept_ne_noted
    | error e =>
      rw [y] at eq
      cases eq
      exact eq_of_yield_noted y

/-! ## Where a memo changes nothing -/

/-- The memo is as it was set last. -/
lemma withMemo_withMemo (p : Pass) (on off : Bool) :
    (p.withMemo on).withMemo off = p.withMemo off := by
  simp [withMemo]

/-- Setting the memo keeps the layers. -/
lemma layers_withMemo_ne_nil (some_layer : p.layers ≠ []) (on : Bool) :
    (p.withMemo on).layers ≠ [] := by
  rwa [withMemo, Ne, List.map_eq_nil_iff]

/-- Nothing is noted twice by a transform, or by an analysis that builds on no other. -/
lemma not_clash (direct : p.kind = .analysis → p.layers.length = 1) : ¬p.Clash v := by
  rintro ⟨w, _, analysis, falls, _⟩
  have short := direct analysis
  generalize p.layers = ls at falls short
  cases ls with
  | nil => exact falls
  | cons l below =>
    have none : below = [] := List.eq_nil_of_length_eq_zero (Nat.succ.inj short)
    exact falls.2 none

/-- A pass whose values are noted once has no clash, whether the memo is on or off. -/
lemma not_clash_withMemo (direct : p.kind = .analysis → p.layers.length = 1) {on : Bool} :
    ¬(p.withMemo on).Clash v := by
  apply not_clash
  rw [withMemo, List.length_map]
  exact direct

/-- Without a clash the outcome is the result without a memo. -/
lemma Follows.fst_eq {s : Visits} {clash : Prop} {new : Value → Prop}
    {x : Except PassError Value × Visits} (follows : Follows p s o clash new x) (no : ¬clash) :
    x.1 = o := by
  cases follows with
  | clash clash => exact absurd clash no
  | fail _ eq => exact eq.symm
  | done _ eq => exact eq.symm

/-- With a memo a run comes to what the result of the root makes of it, where nothing is noted
twice. -/
lemma runTo_of_direct (memo : p.memo = true) (some_layer : p.layers ≠ [])
    (direct : p.kind = .analysis → p.layers.length = 1)
    (ends : p.result d p.layers v ≠ .error .tooDeep) :
    (p.runTo d v c).1 = p.outcome (p.result d p.layers v) c := by
  have follows := follows_visit memo some_layer (sound_empty p) ends
  rw [runTo_eq_outcome, visit, follows.fst_eq (not_clash direct)]

/-- A run with the memo comes to what the run without it comes to, where this one ends. -/
lemma runTo_withMemo_eq (direct : p.kind = .analysis → p.layers.length = 1)
    (some_layer : p.layers ≠ []) (ends : ((p.withMemo false).runTo d v c).1 ≠ .error .tooDeep) :
    ((p.withMemo true).runTo d v c).1 = ((p.withMemo false).runTo d v c).1 := by
  rw [← withMemo_withMemo p true false] at ends ⊢
  have layers := layers_withMemo_ne_nil some_layer true
  apply (runTo_of_memo (memo_withMemo some_layer true) layers ends).2
  rintro ⟨_, clash⟩
  exact not_clash_withMemo direct clash

/-- A run that ends comes to the same if visits are followed further. -/
lemma runTo_withMemo_of_le (some_layer : p.layers ≠ [])
    (ends : ((p.withMemo false).runTo d v c).1 ≠ .error .tooDeep) (le : d ≤ d') :
    ((p.withMemo false).runTo d' v c).1 = ((p.withMemo false).runTo d v c).1 := by
  rw [runTo_withMemo_false some_layer] at ends ⊢
  rw [runTo_withMemo_false some_layer]
  by_cases begins : p.Begins c
  · rw [result_of_le _ le]
    intro deep
    rw [deep, outcome_error begins] at ends
    exact ends rfl
  · exact outcome_of_not_begins begins _ _

/-- Whatever is done by visits alone comes to the same. -/
lemma exec_withMemo_eq (direct : p.kind = .analysis → p.layers.length = 1)
    (some_layer : p.layers ≠ []) {body : Script}
    (ends : ((body.exec ((p.withMemo false).visit d)).runOn ⟨[], []⟩).1 ≠ .error .tooDeep) :
    ((body.exec ((p.withMemo true).visit d)).runOn ⟨[], []⟩).1 =
      ((body.exec ((p.withMemo false).visit d)).runOn ⟨[], []⟩).1 := by
  rw [← withMemo_withMemo p true false] at ends ⊢
  have layers := layers_withMemo_ne_nil some_layer true
  apply (exec_of_memo (memo_withMemo some_layer true) layers ends).2
  rintro ⟨w, _, clash⟩
  exact not_clash_withMemo direct clash

/-- A memo changes nothing for a transform, however many layers it has, nor for an analysis of a
single layer. If the run without a memo ends, then from there on the run with a memo comes to the
same; and if that is the error that a value is noted twice, a script has failed with it. Likewise
for anything else that is done with the pass by visits alone.

Nodes are taken up to structural equality, in the results and in the memo. What is done is given by
scripts, and these do not go on after a visit that fails. -/
theorem withMemo_transparent (p : Pass) (some_layer : p.layers ≠ [])
    (direct : p.kind = .analysis → p.layers.length = 1) :
    (∀ d v c, ((p.withMemo false).runTo d v c).1 ≠ .error .tooDeep → ∀ d', d ≤ d' →
      ((p.withMemo false).runTo d' v c).1 = ((p.withMemo false).runTo d v c).1 ∧
      ((p.withMemo true).runTo d' v c).1 = ((p.withMemo false).runTo d v c).1 ∧
      (((p.withMemo true).runTo d' v c).1 = .error .noted → p.Raises .noted)) ∧
    ∀ d body,
      ((Script.exec ((p.withMemo false).visit d) body).runOn ⟨[], []⟩).1 ≠ .error .tooDeep →
      ((Script.exec ((p.withMemo true).visit d) body).runOn ⟨[], []⟩).1 =
        ((Script.exec ((p.withMemo false).visit d) body).runOn ⟨[], []⟩).1 := by
  refine ⟨?_, fun d body => exec_withMemo_eq direct some_layer⟩
  intro d v c ends d' le
  have off := runTo_withMemo_of_le some_layer ends le
  have on := runTo_withMemo_eq direct some_layer (off ▸ ends)
  refine ⟨off, on.trans off, ?_⟩
  intro noted
  rw [on, runTo_withMemo_false some_layer] at noted
  exact raises_of_result (List.Subset.refl _) (eq_of_outcome_noted noted)

/-- A transform that puts primes to the variables, below a layer that adds nothing. The variable is
noted by both layers, and it is handled once instead of twice. -/
theorem withMemo_transparent_primes :
    let h : Handler := ⟨"h", [.var], fun n => (Action.suffix "'").script n⟩
    let l : Layer := ⟨"P", "p", [h], none, none, none, none⟩
    let p : Pass := ⟨.transform, [⟨"Q", "q", [], none, none, none, none⟩, l]⟩
    let v : Value := .node (Term.app (.var "x") (.var "x"))
    ((p.withMemo false).runTo 9 v ∅).2 = [("h", "Var"), ("h", "Var")] ∧
      ((p.withMemo true).runTo 9 v ∅).2 = [("h", "Var")] ∧
      ((p.withMemo true).runTo 9 v ∅).1 = .ok (.node (Term.app (.var "x'") (.var "x'"))) := by
  intro h l p v
  have off : ((p.withMemo false).runTo 9 v ∅).1 =
      .ok (.node (Term.app (.var "x'") (.var "x'"))) := rfl
  have ends : ((p.withMemo false).runTo 9 v ∅).1 ≠ .error .tooDeep := by
    rw [off]
    nofun
  have direct : p.kind = .analysis → p.layers.length = 1 := by
    intro analysis
    cases analysis
  have runs := (withMemo_transparent p (List.cons_ne_nil _ _) direct).1 9 v ∅ ends 9 (Nat.le_refl 9)
  exact ⟨rfl, rfl, runs.2.1.trans off⟩

/-! ## Analyses of a single layer -/

/-- The answer of a judgment as what a visit comes to. -/
def answered {α : Type} (f : α → Value) (o : Except Fault α) : Except PassError Value :=
  (o.mapError .fault).map f

/-- An answer is not that the visit went too deep. -/
lemma answered_ne_tooDeep {α : Type} {f : α → Value} {o : Except Fault α} :
    answered f o ≠ .error .tooDeep := by
  intro eq
  cases o <;> cases eq

/-- An analysis of a single layer that collects what visiting the root comes to, with its memo: if
that is the answer of a judgment then the run comes to this answer. -/
lemma run_of_answered {α : Type} {l : Layer} {name : String} {f : α → Value} {o : Except Fault α}
    (single : p = ⟨.analysis, [l]⟩) (memo : l.memo = none) (requires : l.requires = some [])
    (collects : l.run = some (.collect name))
    (result : ∀ d, v.size < d → p.result d p.layers v = answered f o) (c : Context) :
    (p.run v c).1 = (o.mapError .fault).map fun a => .object (.custom name (f a)) := by
  subst single
  have deep : v.size < (⟨.analysis, [l]⟩ : Pass).depthFor v := by
    have depth : (⟨.analysis, [l]⟩ : Pass).depthFor v = v.size * 2 + 1 := rfl
    omega
  have result := result _ deep
  have ends := answered_ne_tooDeep (f := f) (o := o)
  rw [← result] at ends
  have on : (⟨.analysis, [l]⟩ : Pass).memo = true := by
    rw [Pass.memo, List.findSome?_singleton, memo]
    rfl
  have needs : (⟨.analysis, [l]⟩ : Pass).requires = [] := by
    rw [Pass.requires, List.findSome?_singleton, requires]
    rfl
  have mode : RunMode.ofLayers [l] = some (.collect name) := by
    rw [RunMode.ofLayers, collects]
  rw [run, runTo_of_direct on (List.cons_ne_nil _ _) (fun _ => rfl) ends, result, outcome, needs,
    mode]
  cases o <;> rfl

end Pass

end RecordLambda
