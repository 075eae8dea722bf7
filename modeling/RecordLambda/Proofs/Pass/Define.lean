import RecordLambda.Pass.Define
import Mathlib.Data.List.Forall2
import Mathlib.Tactic.Lemma

/-!
# Histories of definitions

Handlers wait under the name of a pass from the moment they are declared until a pass of that name
is made. So what waits under a name is found from the history: it is what the definitions of that
name have declared that were refused since the last one was made, `Tried.waitingFor_eq`. The next
pass of the name takes all of it, before its own handlers.

Hence a pass has its own handlers and no others just if no definition of its name that was refused
since the last one was made had a handler accepted.
-/

namespace RecordLambda

variable {scope : String → Option Form} {name : String} {r r' : Registry} {d : Definition}

/-! ## Declaring handlers -/

/-- The handlers of some declarations, up to the first that is refused. -/
def accepted (scope : String → Option Form) (name : String) : List Declaration → List Handler
  | [] => []
  | d :: ds =>
    match d.resolve name scope with
    | .error _ => []
    | .ok forms => ⟨d.label, forms, d.body⟩ :: accepted scope name ds

/-- The handler is what the declaration says, for the forms that are found for it. -/
def Declaration.Gives (scope : String → Option Form) (name : String) (d : Declaration)
    (h : Handler) : Prop :=
  h.label = d.label ∧ h.body = d.body ∧ d.resolve name scope = .ok h.forms

namespace Registry

/-- What waits under a name after handlers are put under one. -/
lemma waitingFor_insert (r : Registry) (name other : String) (hs : List Handler) :
    waitingFor { r with waiting := r.waiting.insert name hs } other =
      if other = name then hs else r.waitingFor other := by
  rw [waitingFor, OrderedMap.get?_insert]
  split <;> rfl

/-- The handlers that are declared wait behind those that wait already. -/
lemma waitingFor_declare_self (r : Registry) (ds : List Declaration) :
    (r.declare scope name ds).1.waitingFor name =
      r.waitingFor name ++ accepted scope name ds := by
  induction ds generalizing r with
  | nil => exact (List.append_nil _).symm
  | cons d ds ih =>
    rw [declare, accepted]
    cases d.resolve name scope with
    | error e => exact (List.append_nil _).symm
    | ok forms =>
      dsimp only
      rw [ih, waitingFor_insert, if_pos rfl, List.append_assoc]
      rfl

/-- Declarations change what waits under their own name only. -/
lemma waitingFor_declare_of_ne {other : String} (ne : other ≠ name) (r : Registry)
    (ds : List Declaration) :
    (r.declare scope name ds).1.waitingFor other = r.waitingFor other := by
  induction ds generalizing r with
  | nil => rfl
  | cons d ds ih =>
    rw [declare]
    cases d.resolve name scope with
    | error e => rfl
    | ok forms =>
      dsimp only
      rw [ih, waitingFor_insert, if_neg ne]

/-- Declarations make no pass. -/
lemma passes_declare (r : Registry) (ds : List Declaration) :
    (r.declare scope name ds).1.passes = r.passes := by
  induction ds generalizing r with
  | nil => rfl
  | cons d ds ih =>
    rw [declare]
    cases d.resolve name scope with
    | error e => rfl
    | ok forms => exact ih _

/-- If no declaration is refused, each gives its handler. -/
lemma forall₂_accepted {r : Registry} {ds : List Declaration}
    (none : (r.declare scope name ds).2 = none) :
    List.Forall₂ (Declaration.Gives scope name) ds (accepted scope name ds) := by
  induction ds generalizing r with
  | nil => exact .nil
  | cons d ds ih =>
    rw [declare] at none
    rw [accepted]
    cases eq : d.resolve name scope with
    | error e =>
      rw [eq] at none
      cases none
    | ok forms =>
      rw [eq] at none
      exact .cons ⟨rfl, rfl, eq⟩ (ih none)

/-- Declarations are never refused for want of a base. -/
lemma declare_ne_noBase (r : Registry) (ds : List Declaration) :
    (r.declare scope name ds).2 ≠ some .noBase := by
  induction ds generalizing r with
  | nil => nofun
  | cons d ds ih =>
    rw [declare]
    cases eq : d.resolve name scope with
    | error e =>
      rintro ⟨rfl⟩
      unfold Declaration.resolve at eq
      grind
    | ok forms => exact ih _

/-! ## Defining passes -/

/-- All that a definition can do: nothing, if there is no base; declare handlers and then be
refused; or declare all its handlers and make a pass. -/
lemma define_cases {o : Option DefineError} (eq : r.define scope d = (r', o)) :
    (o = some .noBase ∧ r' = r) ∨
      (∃ e, o = some e ∧ e ≠ .noBase ∧ r' = (r.declare scope d.name d.declarations).1) ∨
      ∃ base, o = none ∧ r.baseOf d.base = some base ∧
        (r.declare scope d.name d.declarations).2 = none ∧
        r' = (r.declare scope d.name d.declarations).1.make base d := by
  unfold define at eq
  have ne : (r.declare scope d.name d.declarations).2 ≠ some .noBase :=
    declare_ne_noBase r d.declarations
  cases hb : r.baseOf d.base with
  | none =>
    rw [hb] at eq
    cases eq
    exact .inl ⟨rfl, rfl⟩
  | some base =>
    rw [hb] at eq
    rcases hd : r.declare scope d.name d.declarations with ⟨r₁, _ | e⟩
    · rw [hd] at eq
      dsimp only at eq
      split at eq
      · cases eq
        exact .inr (.inl ⟨_, rfl, nofun, rfl⟩)
      · split at eq
        · cases eq
          exact .inr (.inl ⟨_, rfl, nofun, rfl⟩)
        · cases eq
          exact .inr (.inr ⟨base, rfl, rfl, rfl, rfl⟩)
    · rw [hd] at eq ne
      cases eq
      exact .inr (.inl ⟨e, rfl, fun h => ne (congrArg some h), rfl⟩)

end Registry

/-! ## Histories -/

/-- A definition that was tried, and why it was refused if it was. -/
structure Attempt where
  definition : Definition
  refusal : Option DefineError

namespace Attempt

/-- Whether a pass of the name was made. -/
def makes (name : String) (a : Attempt) : Bool :=
  a.definition.name == name && a.refusal.isNone

/-- The handlers that were left waiting under the name. Without a base none are declared. -/
def leaves (scope : String → Option Form) (name : String) (a : Attempt) : List Handler :=
  match a.refusal with
  | none | some .noBase => []
  | some _ => if a.definition.name = name then accepted scope name a.definition.declarations else []

end Attempt

/-- What is left waiting under a name by some attempts, the latest first: all that was left since a
pass of the name was made, in the order in which it was declared. -/
def leftOver (scope : String → Option Form) (name : String) (as : List Attempt) : List Handler :=
  (as.takeWhile fun a => !a.makes name).reverse.flatMap fun a => a.leaves scope name

/-- The attempts, the latest first, lead from nothing to the registry. -/
inductive Tried (scope : String → Option Form) : List Attempt → Registry → Prop where
  | nil :
    Tried scope [] .empty
  | cons {as r d o r'} :
    Tried scope as r →
    r.define scope d = (r', o) →
    Tried scope (⟨d, o⟩ :: as) r'

/-- Nothing is left over when a pass of the name is made. -/
lemma leftOver_cons_of_makes {a : Attempt} {as : List Attempt} (mk : a.makes name) :
    leftOver scope name (a :: as) = [] := by
  simp [leftOver, mk]

/-- An attempt that makes no pass of the name adds what it leaves. -/
lemma leftOver_cons {a : Attempt} {as : List Attempt} (no : a.makes name = false) :
    leftOver scope name (a :: as) = leftOver scope name as ++ a.leaves scope name := by
  simp [leftOver, no]

/-- Nothing is left if nothing was left by any attempt since a pass of the name was made. -/
lemma leftOver_eq_nil_iff {as : List Attempt} :
    leftOver scope name as = [] ↔
      ∀ a ∈ as.takeWhile fun a => !a.makes name, a.leaves scope name = [] := by
  simp [leftOver, List.flatMap_eq_nil_iff]

namespace Registry

/-- A definition that is refused for another reason leaves the handlers that were accepted. -/
lemma leaves_of_refused {e : DefineError} (ne : e ≠ .noBase) (name : String) :
    Attempt.leaves scope name ⟨d, some e⟩ =
      if d.name = name then accepted scope name d.declarations else [] := by
  cases e with
  | noBase => exact absurd rfl ne
  | _ => rfl

/-- When a pass is made, nothing waits under its name any more. -/
lemma waitingFor_make (r : Registry) (base : Pass) (d : Definition) (name : String) :
    (r.make base d).waitingFor name = if name = d.name then [] else r.waitingFor name :=
  waitingFor_insert r d.name name []

/-- A definition changes what waits under a name as the history says. -/
lemma waitingFor_define {o : Option DefineError} (eq : r.define scope d = (r', o))
    (name : String) :
    r'.waitingFor name =
      if Attempt.makes name ⟨d, o⟩ then []
      else r.waitingFor name ++ Attempt.leaves scope name ⟨d, o⟩ := by
  obtain ⟨rfl, rfl⟩ | ⟨e, rfl, ne, rfl⟩ | ⟨base, rfl, -, -, rfl⟩ := define_cases eq
  · simp [Attempt.makes, Attempt.leaves]
  · -- the handlers that were accepted before the refusal stay
    rw [leaves_of_refused ne]
    by_cases same : d.name = name
    · subst same
      simp [Attempt.makes, waitingFor_declare_self]
    · simp [Attempt.makes, same, waitingFor_declare_of_ne (Ne.symm same)]
  · rw [waitingFor_make]
    by_cases same : d.name = name
    · subst same
      simp [Attempt.makes]
    · simp [Attempt.makes, Attempt.leaves, same, Ne.symm same,
        waitingFor_declare_of_ne (Ne.symm same)]

/-- A definition that makes no pass of a name leaves the passes of that name as they are. -/
lemma get?_passes_define {o : Option DefineError} (eq : r.define scope d = (r', o))
    (no : Attempt.makes name ⟨d, o⟩ = false) : r'.passes.get? name = r.passes.get? name := by
  obtain ⟨rfl, rfl⟩ | ⟨e, rfl, ne, rfl⟩ | ⟨base, rfl, -, -, rfl⟩ := define_cases eq
  · rfl
  · rw [passes_declare]
  · have ne : name ≠ d.name := by
      rintro rfl
      simp [Attempt.makes] at no
    rw [make, OrderedMap.get?_insert, if_neg ne, passes_declare]

end Registry

namespace Tried

variable {as later : List Attempt}

/-- What waits under a name is what the history has left there. -/
lemma waitingFor_eq (tried : Tried scope as r) (name : String) :
    r.waitingFor name = leftOver scope name as := by
  induction tried with
  | nil => rfl
  | @cons as r d o r' _ eq ih =>
    rw [Registry.waitingFor_define eq, ih]
    cases mk : Attempt.makes name ⟨d, o⟩ with
    | true => rw [leftOver_cons_of_makes mk, if_pos rfl]
    | false => rw [leftOver_cons mk, if_neg Bool.false_ne_true]

/-- Later attempts that make no pass of a name leave the passes of that name as they are. -/
lemma get?_passes_append (tried : Tried scope (later ++ as) r)
    (no : ∀ a ∈ later, a.makes name = false) :
    ∃ r₀, Tried scope as r₀ ∧ r.passes.get? name = r₀.passes.get? name := by
  induction later generalizing r with
  | nil => exact ⟨r, tried, rfl⟩
  | cons a later ih =>
    obtain ⟨noA, rest⟩ := List.forall_mem_cons.1 no
    cases tried with
    | cons tried eq =>
      obtain ⟨r₀, tried, same⟩ := ih tried rest
      exact ⟨r₀, tried, (Registry.get?_passes_define eq noA).trans same⟩

end Tried

namespace Registry

/-- A pass that is made takes what waits under its name and then its own handlers. -/
lemma get?_passes_of_made (eq : r.define scope d = (r', none)) :
    ∃ kind l below, r'.passes.get? d.name = some ⟨kind, l :: below⟩ ∧
      l.handlers = r.waitingFor d.name ++ accepted scope d.name d.declarations ∧
      List.Forall₂ (Declaration.Gives scope d.name) d.declarations
        (accepted scope d.name d.declarations) := by
  obtain ⟨h, -⟩ | ⟨e, h, -⟩ | ⟨base, -, -, none, rfl⟩ := define_cases eq
  · cases h
  · cases h
  · let hs := (r.declare scope d.name d.declarations).1.waitingFor d.name
    let l : Layer := ⟨d.name, d.title, hs, d.fallback, d.run, d.memo, d.requires⟩
    refine ⟨base.kind, l, base.layers, ?_, ?_, forall₂_accepted none⟩
    · rw [make, OrderedMap.get?_insert, if_pos rfl]
    · exact waitingFor_declare_self r d.declarations

/-- A pass that was made has the handlers that were left waiting under its name, and behind them its
own ones. So it has its own handlers and no others if and only if no definition of its name that was
refused since the last one was made had a handler accepted. -/
theorem handlers_of_made {later earlier : List Attempt}
    (tried : Tried scope (later ++ ⟨d, none⟩ :: earlier) r)
    (last : ∀ a ∈ later, a.makes d.name = false) :
    ∃ kind l below, r.passes.get? d.name = some ⟨kind, l :: below⟩ ∧
      (∃ own, List.Forall₂ (Declaration.Gives scope d.name) d.declarations own ∧
        l.handlers = leftOver scope d.name earlier ++ own) ∧
      (List.Forall₂ (Declaration.Gives scope d.name) d.declarations l.handlers ↔
        ∀ a ∈ earlier.takeWhile fun a => !a.makes d.name, a.leaves scope d.name = []) := by
  obtain ⟨r₁, tried, same⟩ := tried.get?_passes_append last
  cases tried with
  | @cons _ r₀ _ _ _ tried eq =>
    obtain ⟨kind, l, below, made, handlers, own⟩ := get?_passes_of_made eq
    rw [tried.waitingFor_eq] at handlers
    refine ⟨kind, l, below, same.trans made, ⟨_, own, handlers⟩, ?_⟩
    rw [← leftOver_eq_nil_iff, handlers]
    constructor
    · intro all
      have length := all.length_eq.symm.trans own.length_eq
      simpa using length
    · intro none
      rw [none]
      exact own

/-- A pass that was refused at its first handler, one of the same name that was made after it, and a
further one that was refused. The one in the middle has just its own handler. -/
theorem handlers_of_made_between :
    let h : Declaration := ⟨"h", fun _ => .done (.scalar (.int 10)), [.var], none, true, true⟩
    let bad : Declaration := { h with label := "bad", forms := [] }
    let d : Definition :=
      ⟨"P", "p", .kind .analysis, [h], false, none, some (.collect "Count"), none, none⟩
    let first : Attempt := ⟨{ d with declarations := [bad, h] }, some (.noHint "P")⟩
    let later : Attempt := ⟨{ d with changesCall := true }, some .changesCall⟩
    ∃ r, Tried (fun _ => none) [later, ⟨d, none⟩, first] r ∧ later.makes "P" = false ∧
      ∃ kind l below, r.passes.get? "P" = some ⟨kind, l :: below⟩ ∧
        List.Forall₂ (Declaration.Gives (fun _ => none) "P") [h] l.handlers := by
  intro h bad d first later
  have tried : ∃ r, Tried (fun _ => none) ([later] ++ ⟨d, none⟩ :: [first]) r :=
    ⟨_, .cons (.cons (.cons .nil rfl) rfl) rfl⟩
  obtain ⟨r, tried⟩ := tried
  have no : later.makes "P" = false := rfl
  obtain ⟨kind, l, below, made, -, own⟩ := handlers_of_made tried (List.forall_mem_singleton.2 no)
  have none : ∀ a ∈ [first], a.leaves (fun _ => none) "P" = [] := List.forall_mem_singleton.2 rfl
  exact ⟨r, tried, no, kind, l, below, made, own.2 none⟩

/-- A pass that was refused for not saying how it is run, and one of the same name without any
handlers that was made after it. The second one has the handler of the first, and uses it. -/
theorem handlers_left_over :
    let h : Declaration := ⟨"h", fun _ => .done (.scalar (.int 10)), [.var], none, true, true⟩
    let d : Definition := ⟨"P", "p", .kind .analysis, [h], false, none, none, none, none⟩
    let d' : Definition := { d with declarations := [], run := some (.collect "Count") }
    ∃ r p, Tried (fun _ => none) [⟨d', none⟩, ⟨d, some .noRun⟩] r ∧ r.passes.get? "P" = some p ∧
      (p.layers.map fun l => l.handlers.map Handler.label) = [["h"]] ∧
      (p.run (Term.var "x" : Node) ∅).1 =
        .ok (.object (.custom "Count" (.scalar (.int 10)))) := by
  intro h d d'
  exact ⟨_, _, .cons (.cons .nil rfl) rfl, rfl, rfl, rfl⟩

end Registry

end RecordLambda
