import RecordLambda.Proofs.Pass.Visit

/-!
# Visits with a memo

With a memo a visit first looks for the value among those noted, and notes the result when it is
done. All layers that a value is handed through note it, each after the one below, and an analysis
fails when it comes to note a value a second time.

`Pass.follows_visit` compares such a visit with one that is made without a memo. The invariant is
that what is noted is right, `Pass.Sound`: then a result that is found is the one that a visit would
come to. A script does not come back to the value that it is for, so the value is not noted yet when
the script is done, and only the layers above can note it twice.
-/

namespace RecordLambda

/-! ## Computations -/

namespace VisitM

variable {α β : Type} {x : VisitM α} {f : α → VisitM β} {s s' : Visits} {a : α} {e : PassError}

/-- What a computation comes to from a state, and the state after it. -/
def runOn (x : VisitM α) (s : Visits) : Except PassError α × Visits := (ExceptT.run x).run s

/-- The second part goes on with the notes of the first, and a failure of the first is one of the
whole. -/
lemma runOn_bind (x : VisitM α) (f : α → VisitM β) (s : Visits) :
    (x >>= f).runOn s =
      match x.runOn s with
      | (.ok a, s') => (f a).runOn s'
      | (.error e, s') => (.error e, s') := by
  rw [runOn, ExceptT.run_bind, StateT.run_bind]
  rcases eq : x.runOn s with ⟨e | a, s'⟩
  all_goals
    have eq : (ExceptT.run x).run s = _ := eq
    rw [eq]
    rfl

lemma runOn_bind_ok (run : x.runOn s = (.ok a, s')) : (x >>= f).runOn s = (f a).runOn s' := by
  rw [runOn_bind, run]

lemma runOn_bind_error (run : x.runOn s = (.error e, s')) :
    (x >>= f).runOn s = (.error e, s') := by
  rw [runOn_bind, run]

end VisitM

open VisitM

/-! ## Without a memo -/

/-- A script comes to its result if its visits come to theirs, whatever is noted. -/
lemma Script.exists_runOn_exec {self : Value → VisitM Value}
    {result : Value → Except PassError Value}
    (same : ∀ v s, ∃ s', (self v).runOn s = (result v, s')) (script : Script) (s : Visits) :
    ∃ s', (script.exec self).runOn s = (script.result result, s') := by
  induction script generalizing s with
  | done v => exact ⟨s, rfl⟩
  | fail e => exact ⟨s, rfl⟩
  | visit n k ih =>
    obtain ⟨s₁, run⟩ := same n s
    rw [exec, Script.result]
    rcases eq : result n with e | r
    · rw [eq] at run
      exact ⟨s₁, runOn_bind_error run⟩
    · rw [eq] at run
      obtain ⟨s₂, run'⟩ := ih r s₁
      exact ⟨s₂, (runOn_bind_ok run).trans run'⟩

namespace Pass

variable {p : Pass} {d : Nat} {l : Layer} {ls below : List Layer} {v r r' : Value}
  {s s' : Visits} {label : String} {script : Script}

/-! ## The steps of a visit -/

/-- Nothing is found that was noted for the value. -/
def Unknown (p : Pass) (s : Visits) (v : Value) : Prop :=
  p.memo = true → s.noted.lookup v = none

/-- What is noted is not visited again. -/
lemma runOn_visitFrom_noted (memo : p.memo = true) (known : s.noted.lookup v = some r) :
    (p.visitFrom (d + 1) (l :: below) v).runOn s = (.ok r, s) := by
  have look : (noted? v).runOn s = (.ok (some r), s) := by rw [← known]; rfl
  rw [visitFrom, if_pos memo, runOn_bind_ok look]
  rfl

/-- A layer with a handler runs it and keeps what it comes to. -/
lemma runOn_visitFrom_handled (free : p.Unknown s v) (eq : l.scriptFor v = some (label, script)) :
    (p.visitFrom (d + 1) (l :: below) v).runOn s =
      (script.exec (p.visitFrom d p.layers) >>= p.keep v).runOn
        { s with log := s.log ++ [(label, v.kindName)] } := by
  rw [visitFrom]
  split
  · rename_i memo
    have look : (noted? v).runOn s = (.ok none, s) := by rw [← free memo]; rfl
    rw [runOn_bind_ok look, eq]
    rfl
  · rw [eq]
    rfl

/-- A layer without a handler leaves the value to those below and keeps what they come to. -/
lemma runOn_visitFrom_left (free : p.Unknown s v) (eq : l.scriptFor v = none) :
    (p.visitFrom (d + 1) (l :: below) v).runOn s =
      (p.visitFrom d below v >>= p.keep v).runOn s := by
  rw [visitFrom]
  split
  · rename_i memo
    have look : (noted? v).runOn s = (.ok none, s) := by rw [← free memo]; rfl
    rw [runOn_bind_ok look, eq]
  · rw [eq]
    rfl

/-! ## Without a memo -/

/-- Nothing is kept when the memo is off. -/
lemma runOn_keep_of_memo_off (off : p.memo = false) : (p.keep v r).runOn s = (.ok r, s) := by
  rw [keep, off]
  rfl

/-- Without a memo, keeping a result changes nothing. -/
lemma exists_runOn_keep {x : VisitM Value} {o : Except PassError Value} (off : p.memo = false)
    (run : ∃ s', x.runOn s = (o, s')) : ∃ s', (x >>= p.keep v).runOn s = (o, s') := by
  obtain ⟨s', run⟩ := run
  cases o with
  | error e => exact ⟨s', runOn_bind_error run⟩
  | ok r => exact ⟨s', (runOn_bind_ok run).trans (runOn_keep_of_memo_off off)⟩

/-- Without a memo a visit comes to its result, whatever was noted before. -/
lemma exists_runOn_visitFrom (off : p.memo = false) (d : Nat) (ls : List Layer) (v : Value)
    (s : Visits) : ∃ s', (p.visitFrom d ls v).runOn s = (p.result d ls v, s') := by
  induction d generalizing ls v s with
  | zero => exact ⟨s, rfl⟩
  | succ d ih =>
    cases ls with
    | nil => exact Script.exists_runOn_exec (ih p.layers) _ s
    | cons l below =>
      have free : p.Unknown s v := fun memo => absurd (off.symm.trans memo) Bool.false_ne_true
      rw [result]
      cases eq : l.scriptFor v with
      | none =>
        rw [runOn_visitFrom_left free eq]
        exact exists_runOn_keep off (ih below v s)
      | some call =>
        rw [runOn_visitFrom_handled free eq]
        exact exists_runOn_keep off (Script.exists_runOn_exec (ih p.layers) _ _)

/-! ## Notes -/

/-- The latest note for a value is the one that is found. -/
lemma lookup_note (s : Visits) (v r u : Value) :
    List.lookup u ((v, r) :: s.noted) = if u = v then some r else s.noted.lookup u := by
  rw [List.lookup_cons]
  by_cases eq : u = v
  · rw [if_pos eq, beq_iff_eq.2 eq]
  · rw [if_neg eq, beq_eq_false_iff_ne.2 eq]

/-- An analysis may not note a value twice. -/
lemma runOn_keep_of_analysis (memo : p.memo = true) (analysis : p.kind = .analysis)
    (known : s.noted.lookup v = some r') : (p.keep v r).runOn s = (.error .noted, s) := by
  have look : (noted? v).runOn s = (.ok (some r'), s) := by rw [← known]; rfl
  rw [keep, if_pos memo, analysis, runOn_bind_ok look]
  rfl

/-- Otherwise the result is noted. -/
lemma runOn_keep (memo : p.memo = true) (free : p.kind = .analysis → s.noted.lookup v = none) :
    (p.keep v r).runOn s = (.ok r, { s with noted := (v, r) :: s.noted }) := by
  have look : (noted? v).runOn s = (.ok (s.noted.lookup v), s) := rfl
  have fine : (p.kind == .analysis && (s.noted.lookup v).isSome) = false := by
    cases kind : p.kind with
    | analysis => rw [free kind]; rfl
    | transform => rfl
  rw [keep, if_pos memo, runOn_bind_ok look, fine]
  rfl

/-- The layers hand the value on to a layer below the first. -/
def Falls : List Layer → Value → Prop
  | [], _ => False
  | l :: below, v => l.scriptFor v = none ∧ below ≠ []

/-- What the layers make of what the first of them to do anything with a value came to. -/
inductive Kept (p : Pass) (v : Value) :
    List Layer → Except PassError Value × Visits → Except PassError Value × Visits → Prop where
  | fail {ls : List Layer} {e : PassError} {s : Visits} :
    Kept p v ls (.error e, s) (.error e, s)
  | base {r : Value} {s : Visits} :
    Kept p v [] (.ok r, s) (.ok r, s)
  | clash {ls : List Layer} {r : Value} {s s' : Visits} :
    p.kind = .analysis →
    Falls ls v →
    Kept p v ls (.ok r, s) (.error .noted, s')
  | note {ls : List Layer} {r : Value} {s s' : Visits} :
    ls ≠ [] →
    (p.kind = .analysis → ¬Falls ls v) →
    (∀ u, s'.noted.lookup u = if u = v then some r else s.noted.lookup u) →
    Kept p v ls (.ok r, s) (.ok r, s')

/-- A layer that leaves the value keeps it once more. -/
lemma Kept.bind {x y : Except PassError Value × Visits} {visit : VisitM Value}
    (memo : p.memo = true) (eq : l.scriptFor v = none) (run : visit.runOn s = y)
    (kept : Kept p v below x y) (free : ∀ r s', x = (.ok r, s') → s'.noted.lookup v = none) :
    Kept p v (l :: below) x ((visit >>= p.keep v).runOn s) := by
  cases kept with
  | fail =>
    rw [runOn_bind_error run]
    exact .fail
  | @base r s' =>
    have free := free r s' rfl
    rw [runOn_bind_ok run, runOn_keep memo fun _ => free]
    exact .note (List.cons_ne_nil _ _) (fun _ falls => falls.2 rfl) (lookup_note s' v r)
  | clash analysis falls =>
    rw [runOn_bind_error run]
    refine .clash analysis ⟨eq, ?_⟩
    rintro rfl
    exact falls
  | @note _ r s₁ s₂ ne _ notes =>
    rw [runOn_bind_ok run]
    have known : s₂.noted.lookup v = some r := (notes v).trans (if_pos rfl)
    cases kind : p.kind with
    | analysis =>
      rw [runOn_keep_of_analysis memo kind known]
      exact .clash kind ⟨eq, ne⟩
    | transform =>
      have other : p.kind ≠ .analysis := by rw [kind]; nofun
      rw [runOn_keep memo fun analysis => absurd analysis other]
      refine .note (List.cons_ne_nil _ _) (fun analysis => absurd analysis other) fun u => ?_
      rw [lookup_note, notes]
      split <;> rfl

/-- A visit of a value that is not noted executes the script of the first layer that does anything
with it, and the layers keep what that comes to. -/
lemma exists_kept (memo : p.memo = true) (free : s.noted.lookup v = none)
    (ends : p.result d ls v ≠ .error .tooDeep) :
    ∃ d' < d, ∃ log,
      p.result d ls v = (p.scriptFrom ls v).result (p.result d' p.layers) ∧
      ∀ x, ((p.scriptFrom ls v).exec (p.visitFrom d' p.layers)).runOn ⟨s.noted, log⟩ = x →
        (∀ r s', x = (.ok r, s') → s'.noted.lookup v = none) →
        Kept p v ls x ((p.visitFrom d ls v).runOn s) := by
  induction ls generalizing d with
  | nil =>
    cases d with
    | zero => exact absurd rfl ends
    | succ d =>
      refine ⟨d, Nat.lt_succ_self d, s.log, rfl, ?_⟩
      rintro ⟨e | r, s'⟩ run -
      · have run : (p.visitFrom (d + 1) [] v).runOn s = _ := run
        rw [run]
        exact .fail
      · have run : (p.visitFrom (d + 1) [] v).runOn s = _ := run
        rw [run]
        exact .base
  | cons l below ih =>
    cases d with
    | zero => exact absurd rfl ends
    | succ d =>
      rw [result] at ends ⊢
      rw [scriptFrom]
      cases eq : l.scriptFor v with
      | none =>
        rw [eq] at ends
        obtain ⟨d', lt, log, res, kept⟩ := ih ends
        refine ⟨d', Nat.lt_succ_of_lt lt, log, res, fun x run after => ?_⟩
        rw [runOn_visitFrom_left (fun _ => free) eq]
        exact Kept.bind memo eq rfl (kept x run after) after
      | some call =>
        refine ⟨d, Nat.lt_succ_self d, s.log ++ [(call.1, v.kindName)], rfl, ?_⟩
        rintro ⟨e | r, s'⟩ run after
        · rw [runOn_visitFrom_handled (fun _ => free) eq, runOn_bind_error run]
          exact .fail
        · rw [runOn_visitFrom_handled (fun _ => free) eq, runOn_bind_ok run,
            runOn_keep memo fun _ => after r s' rfl]
          refine .note (List.cons_ne_nil _ _) (fun _ falls => ?_) (lookup_note s' v r)
          rw [falls.1] at eq
          cases eq

/-! ## With a memo -/

/-- Visiting the value leads to one that an analysis notes twice. -/
def Clash (p : Pass) (v : Value) : Prop :=
  ∃ w, p.Reaches v w ∧ p.kind = .analysis ∧ Falls p.layers w ∧ ∃ r, p.Comes w r

/-- A value clashes if one that is visited for it does, or if it is noted by two layers of an
analysis. -/
lemma Clash.cases (clash : p.Clash v) :
    (∃ w, p.Calls v w ∧ p.Clash w) ∨
      p.kind = .analysis ∧ Falls p.layers v ∧ ∃ r, p.Comes v r := by
  obtain ⟨w, reaches, twice⟩ := clash
  obtain rfl | ⟨w', call, reaches⟩ := reaches.cases_head
  · exact .inr twice
  · exact .inl ⟨w', call, w, reaches, twice⟩

/-- What is noted is right, and no visit that is not made again would have failed. -/
def Sound (p : Pass) (s : Visits) : Prop :=
  ∀ v r, s.noted.lookup v = some r → p.Comes v r ∧ ¬p.Clash v

/-- What a computation with a memo comes to: without one it would come to `o`. With one it notes a
value twice if `clash`, and the values that it notes are among `new`. -/
inductive Follows (p : Pass) (s : Visits) (o : Except PassError Value) (clash : Prop)
    (new : Value → Prop) : Except PassError Value × Visits → Prop where
  | clash {s' : Visits} :
    clash →
    Follows p s o clash new (.error .noted, s')
  | fail {e : PassError} {s' : Visits} :
    ¬clash →
    o = .error e →
    Follows p s o clash new (.error e, s')
  | done {r : Value} {s' : Visits} :
    ¬clash →
    o = .ok r →
    p.Sound s' →
    (∀ u r', s'.noted.lookup u = some r' → s.noted.lookup u = some r' ∨ new u) →
    Follows p s o clash new (.ok r, s')

/-- What follows after a first part that noted no value twice follows from before that part. -/
lemma Follows.after {o : Except PassError Value} {clash clash' : Prop} {new new' : Value → Prop}
    {x : Except PassError Value × Visits} (rest : Follows p s' o clash' new' x) (no : ¬clash)
    (notes : ∀ u r, s'.noted.lookup u = some r → s.noted.lookup u = some r ∨ new u) :
    Follows p s o (clash ∨ clash') (fun u => new u ∨ new' u) x := by
  cases rest with
  | clash clash' => exact .clash (.inr clash')
  | fail no' eq => exact .fail (not_or.2 ⟨no, no'⟩) eq
  | done no' eq sound notes' =>
    refine .done (not_or.2 ⟨no, no'⟩) eq sound fun u r known => ?_
    obtain known | new' := notes' u r known
    · exact (notes u r known).imp_right .inl
    · exact .inr (.inr new')

/-- If visits follow those without a memo then so does a script. -/
lemma follows_exec {script : Script}
    (same : ∀ v s, p.Sound s → p.result d p.layers v ≠ .error .tooDeep →
      Follows p s (p.result d p.layers v) (p.Clash v) (p.Reaches v)
        ((p.visitFrom d p.layers v).runOn s))
    (sound : p.Sound s) (ends : script.result (p.result d p.layers) ≠ .error .tooDeep) :
    Follows p s (script.result (p.result d p.layers))
      (∃ w, script.Calls p.Comes w ∧ p.Clash w)
      (fun u => ∃ w, script.Calls p.Comes w ∧ p.Reaches w u)
      ((script.exec (p.visitFrom d p.layers)).runOn s) := by
  induction script generalizing s with
  | done v => exact .done (fun ⟨_, call, _⟩ => nomatch call) rfl sound fun _ _ => .inl
  | fail e => exact .fail (fun ⟨_, call, _⟩ => nomatch call) rfl
  | visit n k ih =>
    have first : p.result d p.layers n ≠ .error .tooDeep := result_ne_tooDeep_of_script .now ends
    rw [Script.exec]
    generalize run : (p.visitFrom d p.layers n).runOn s = x
    have follows := same n s sound first
    rw [run] at follows
    cases follows with
    | clash clash =>
      rw [runOn_bind_error run]
      exact .clash ⟨n, .now, clash⟩
    | @fail e s' no eq =>
      rw [runOn_bind_error run]
      refine .fail ?_ (by rw [Script.result, eq]; rfl)
      rintro ⟨w, call, clash⟩
      cases call with
      | now => exact no clash
      | next comes =>
        have eq' := result_eq_of_comes comes first
        rw [eq] at eq'
        cases eq'
    | @done r s' no eq sound' notes =>
      have comes : p.Comes n r := ⟨d, eq⟩
      have res : (Script.visit n k).result (p.result d p.layers) =
          (k r).result (p.result d p.layers) := by rw [Script.result, eq]; rfl
      rw [runOn_bind_ok run]
      rw [res] at ends ⊢
      simp only [exists_calls_visit_iff comes]
      exact (ih r sound' ends).after no notes

/-- Only what is visited anew is noted. -/
lemma Follows.lookup_eq_none {o : Except PassError Value} {clash : Prop} {new : Value → Prop}
    (follows : Follows p s o clash new (.ok r, s')) (free : s.noted.lookup v = none)
    (no : ¬new v) : s'.noted.lookup v = none := by
  cases follows with
  | done _ _ _ notes =>
    cases known : s'.noted.lookup v with
    | none => rfl
    | some r' =>
      obtain known | call := notes v r' known
      · rw [free] at known
        cases known
      · exact absurd call no

/-- If a script follows then so does what the layers make of it. -/
lemma Follows.kept {x y : Except PassError Value × Visits} {log : Log} (layers : ls = p.layers)
    (some_layer : ls ≠ []) (ends : p.result d p.layers v ≠ .error .tooDeep)
    (follows : Follows p ⟨s.noted, log⟩ (p.result d p.layers v) (∃ w, p.Calls v w ∧ p.Clash w)
      (fun u => ∃ w, p.Calls v w ∧ p.Reaches w u) x)
    (kept : Kept p v ls x y) :
    Follows p s (p.result d p.layers v) (p.Clash v) (p.Reaches v) y := by
  cases follows with
  | clash clash =>
    cases kept
    obtain ⟨w, call, w', reaches, twice⟩ := clash
    exact .clash ⟨w', reaches.head call, twice⟩
  | fail no eq =>
    cases kept
    refine .fail (fun clash => ?_) eq
    obtain clash | ⟨_, _, r, comes⟩ := clash.cases
    · exact no clash
    · have eq' := result_eq_of_comes comes ends
      rw [eq] at eq'
      cases eq'
  | @done r s₁ no eq sound notes =>
    have comes : p.Comes v r := ⟨d, eq⟩
    cases kept with
    | base => exact absurd rfl some_layer
    | clash analysis falls => exact .clash ⟨v, .refl, analysis, layers ▸ falls, r, comes⟩
    | note _ once notes' =>
      have no' : ¬p.Clash v := by
        intro clash
        obtain clash | ⟨analysis, falls, _⟩ := clash.cases
        · exact no clash
        · exact once analysis (layers ▸ falls)
      refine .done no' eq (fun u r' known => ?_) fun u r' known => ?_
      all_goals
        rw [notes'] at known
        split at known
      · subst u
        cases known
        exact ⟨comes, no'⟩
      · exact sound u r' known
      · subst u
        exact .inr .refl
      · obtain known | ⟨w, call, reaches⟩ := notes u r' known
        · exact .inl known
        · exact .inr (reaches.head call)

/-- A visit with a memo comes to what it comes to without, unless an analysis notes a value
twice. -/
lemma follows_visit (memo : p.memo = true) (some_layer : p.layers ≠ []) (sound : p.Sound s)
    (ends : p.result d p.layers v ≠ .error .tooDeep) :
    Follows p s (p.result d p.layers v) (p.Clash v) (p.Reaches v)
      ((p.visitFrom d p.layers v).runOn s) := by
  induction d using Nat.strongRecOn generalizing v s with
  | _ d ih =>
    cases known : s.noted.lookup v with
    | some r =>
      obtain ⟨comes, no⟩ := sound v r known
      have run : (p.visitFrom d p.layers v).runOn s = (.ok r, s) := by
        cases d with
        | zero => exact absurd rfl ends
        | succ d =>
          obtain ⟨l, below, eq⟩ := List.exists_cons_of_ne_nil some_layer
          rw [eq]
          exact runOn_visitFrom_noted memo known
      rw [run]
      exact .done no (result_eq_of_comes comes ends) sound fun _ _ => .inl
    | none =>
      obtain ⟨d', lt, log, res, kept⟩ := exists_kept memo known ends
      have follows := follows_exec (s := ⟨s.noted, log⟩) (fun w s' => ih d' lt) sound (res ▸ ends)
      rw [← res] at follows
      refine follows.kept rfl some_layer ends (kept _ rfl fun r s' run => ?_)
      rw [run] at follows
      -- the script does not come back to the value, so the value is still not noted after it
      refine follows.lookup_eq_none known ?_
      rintro ⟨w, call, reaches⟩
      exact not_calls_self ends (.head' call reaches)

end Pass

end RecordLambda
