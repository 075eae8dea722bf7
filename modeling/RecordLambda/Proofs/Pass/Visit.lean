import RecordLambda.Pass.Basic
import Mathlib.Logic.Relation
import Mathlib.Tactic.Lemma

/-!
# Visits without a memo

Without a memo nothing that was visited before counts, so what a visit comes to is a function of the
value, `Pass.result`, up to the depth to which visits are followed. Only the first layer that does
anything with a value has a say in it, by its script.

From there the visits that a visit leads to can be told: `Pass.Calls` are those that the script
makes, given the results of the visits before, and `Pass.Reaches` are those that it leads to in the
end. A visit that is not too deep does not lead back to itself, `Pass.not_calls_self`.
-/

namespace RecordLambda

/-! ## Results -/

/-- What a script comes to, where `self` is what visiting comes to. -/
def Script.result (self : Value → Except PassError Value) : Script → Except PassError Value
  | done v => .ok v
  | fail e => .error e
  | visit n k => do
    let v ← self n
    (k v).result self

namespace Pass

/-- What visiting a value from a layer on comes to if nothing is noted. -/
def result (p : Pass) : Nat → List Layer → Value → Except PassError Value
  | 0, _, _ => .error .tooDeep
  | depth + 1, [], v => (p.kind.base v).result (p.result depth p.layers)
  | depth + 1, l :: below, v =>
    match l.scriptFor v with
    | some (_, script) => script.result (p.result depth p.layers)
    | none => p.result depth below v

/-- What the first of some layers that does anything with a value does with it. -/
def scriptFrom (p : Pass) : List Layer → Value → Script
  | [], v => p.kind.base v
  | l :: below, v =>
    match l.scriptFor v with
    | some (_, script) => script
    | none => p.scriptFrom below v

end Pass

/-- Where all visits have results, the script goes on with these. -/
lemma Script.result_visitAll {self : Value → Except PassError Value} {f : Node → Value}
    {ns : List Node}
    (k : List Value → Script) (each : ∀ n ∈ ns, self n = .ok (f n)) :
    (visitAll ns k).result self = (k (ns.map f)).result self := by
  induction ns generalizing k with
  | nil => rfl
  | cons n ns ih =>
    obtain ⟨first, rest⟩ := List.forall_mem_cons.1 each
    rw [visitAll, result, first]
    exact ih _ rest

/-! ## Depth -/

/-- A script that does not go too deep comes to the same if visits are followed further. -/
lemma Script.result_eq_of_more {self more : Value → Except PassError Value} {script : Script}
    (same : ∀ v, self v ≠ .error .tooDeep → more v = self v)
    (ends : script.result self ≠ .error .tooDeep) : script.result more = script.result self := by
  induction script with
  | done v => rfl
  | fail e => rfl
  | visit n k ih =>
    rw [result] at ends ⊢
    rcases eq : self n with e | r
    · rw [eq] at ends
      have ne : self n ≠ .error .tooDeep := by rwa [eq]
      rw [result, same _ ne, eq]
      rfl
    · rw [eq] at ends
      have ne : self n ≠ .error .tooDeep := by rw [eq]; nofun
      rw [result, same _ ne, eq]
      exact ih r ends

namespace Pass

variable {p : Pass} {d d' : Nat} {ls : List Layer} {v w r r' : Value}

/-- One more level changes nothing about a result that is there. -/
lemma result_succ (ends : p.result d ls v ≠ .error .tooDeep) :
    p.result (d + 1) ls v = p.result d ls v := by
  induction d generalizing ls v with
  | zero => exact absurd rfl ends
  | succ d ih =>
    cases ls with
    | nil => exact Script.result_eq_of_more (fun v => ih) ends
    | cons l below =>
      rw [result] at ends ⊢
      rw [result]
      split
      · rename_i script eq
        rw [eq] at ends
        exact Script.result_eq_of_more (fun v => ih) ends
      · rename_i eq
        rw [eq] at ends
        exact ih ends

/-- More levels change nothing about a result that is there. -/
lemma result_of_le (ends : p.result d ls v ≠ .error .tooDeep) (le : d ≤ d') :
    p.result d' ls v = p.result d ls v := by
  induction le with
  | refl => rfl
  | step _ ih => rw [result_succ (by rwa [ih]), ih]

/-- What is not too deep is what the script of the first layer comes to. -/
lemma exists_result_eq (ends : p.result d ls v ≠ .error .tooDeep) :
    ∃ d' < d, p.result d ls v = (p.scriptFrom ls v).result (p.result d' p.layers) := by
  induction ls generalizing d with
  | nil =>
    cases d with
    | zero => exact absurd rfl ends
    | succ d => exact ⟨d, Nat.lt_succ_self d, rfl⟩
  | cons l below ih =>
    cases d with
    | zero => exact absurd rfl ends
    | succ d =>
      rw [result] at ends ⊢
      rw [scriptFrom]
      split
      · exact ⟨d, Nat.lt_succ_self d, rfl⟩
      · rename_i eq
        rw [eq] at ends
        obtain ⟨d', lt, eq⟩ := ih ends
        exact ⟨d', Nat.lt_succ_of_lt lt, eq⟩

/-- Visiting the value comes to the result. -/
def Comes (p : Pass) (v r : Value) : Prop := ∃ d, p.result d p.layers v = .ok r

/-- Deep enough, the result is the one that the visit comes to. -/
lemma result_eq_of_comes (comes : p.Comes v r) (ends : p.result d p.layers v ≠ .error .tooDeep) :
    p.result d p.layers v = .ok r := by
  obtain ⟨d', eq⟩ := comes
  have ends' : p.result d' p.layers v ≠ .error .tooDeep := by rw [eq]; nofun
  rw [← result_of_le ends (Nat.le_max_left d d'), result_of_le ends' (Nat.le_max_right d d'), eq]

/-- A visit comes to one result only. -/
lemma Comes.unique (comes : p.Comes v r) (comes' : p.Comes v r') : r = r' := by
  obtain ⟨d, eq⟩ := comes
  have ends : p.result d p.layers v ≠ .error .tooDeep := by rw [eq]; nofun
  exact Except.ok.inj (eq.symm.trans (result_eq_of_comes comes' ends))

end Pass

/-! ## Calls -/

/-- The script visits the value, where `comes` tells the results of visits. -/
inductive Script.Calls (comes : Value → Value → Prop) : Script → Value → Prop where
  | now {n k} :
    Calls comes (.visit n k) (.node n)
  | next {n k r w} :
    comes (.node n) r →
    Calls comes (k r) w →
    Calls comes (.visit n k) w

/-- Only nodes are visited by a script. -/
lemma Script.Calls.exists_node {comes : Value → Value → Prop} {script : Script} {w : Value}
    (call : script.Calls comes w) : ∃ n : Node, w = n := by
  induction call with
  | @now n _ => exact ⟨n, rfl⟩
  | next _ _ ih => exact ih

namespace Pass

/-- Visiting the first value makes a visit of the second. -/
def Calls (p : Pass) (v w : Value) : Prop := (p.scriptFrom p.layers v).Calls p.Comes w

/-- Visiting the first value leads to a visit of the second. -/
def Reaches (p : Pass) : Value → Value → Prop := Relation.ReflTransGen p.Calls

variable {p : Pass} {d : Nat} {v w : Value}

/-- A script that starts with a visit visits that node, and then what the rest visits. -/
lemma exists_calls_visit_iff {n : Node} {k : Value → Script} {r : Value} (comes : p.Comes n r)
    (q : Value → Prop) :
    (∃ w, (Script.visit n k).Calls p.Comes w ∧ q w) ↔
      q n ∨ ∃ w, (k r).Calls p.Comes w ∧ q w := by
  constructor
  · rintro ⟨w, call, holds⟩
    cases call with
    | now => exact .inl holds
    | next comes' call =>
      rw [← comes.unique comes'] at call
      exact .inr ⟨w, call, holds⟩
  · rintro (holds | ⟨w, call, holds⟩)
    · exact ⟨n, .now, holds⟩
    · exact ⟨w, .next comes call, holds⟩

/-- Only nodes are visited on the way from a node. -/
lemma Reaches.exists_node {n : Node} (reaches : p.Reaches n w) : ∃ m : Node, w = m := by
  obtain rfl | ⟨u, _, call⟩ := reaches.cases_tail
  · exact ⟨n, rfl⟩
  · exact call.exists_node

/-- A visit that a script makes is not too deep if the script does not go too deep. -/
lemma result_ne_tooDeep_of_script {script : Script} (call : script.Calls p.Comes w)
    (ends : script.result (p.result d p.layers) ≠ .error .tooDeep) :
    p.result d p.layers w ≠ .error .tooDeep := by
  induction call with
  | @now n k =>
    intro deep
    rw [Script.result, deep] at ends
    exact ends rfl
  | @next n k r w comes _ ih =>
    have first : p.result d p.layers n ≠ .error .tooDeep := by
      intro deep
      rw [Script.result, deep] at ends
      exact ends rfl
    rw [Script.result, result_eq_of_comes comes first] at ends
    exact ih ends

/-- A visit that ends makes only visits that end at a smaller depth. -/
lemma exists_result_of_calls (call : p.Calls v w)
    (ends : p.result d p.layers v ≠ .error .tooDeep) :
    ∃ d' < d, p.result d' p.layers w ≠ .error .tooDeep := by
  obtain ⟨d', lt, eq⟩ := exists_result_eq ends
  rw [eq] at ends
  exact ⟨d', lt, result_ne_tooDeep_of_script call ends⟩

/-- Likewise for the visits that these make in turn. -/
lemma exists_result_of_trans (calls : Relation.TransGen p.Calls v w)
    (ends : p.result d p.layers v ≠ .error .tooDeep) :
    ∃ d' < d, p.result d' p.layers w ≠ .error .tooDeep := by
  induction calls with
  | single call => exact exists_result_of_calls call ends
  | tail _ call ih =>
    obtain ⟨d₁, lt₁, ends₁⟩ := ih
    obtain ⟨d₂, lt₂, ends₂⟩ := exists_result_of_calls call ends₁
    exact ⟨d₂, Nat.lt_trans lt₂ lt₁, ends₂⟩

/-- A visit that is not too deep does not lead back to itself. -/
lemma not_calls_self (ends : p.result d p.layers v ≠ .error .tooDeep) :
    ¬Relation.TransGen p.Calls v v := by
  intro calls
  -- each time round needs less depth than the time before
  induction d using Nat.strongRecOn with
  | _ d ih =>
    obtain ⟨d', lt, ends'⟩ := exists_result_of_trans calls ends
    exact ih d' lt ends'

end Pass

end RecordLambda
