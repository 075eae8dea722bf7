import RecordLambda.Pass.Manager
import RecordLambda.Proofs.Pass.Transparent

/-!
# Substitution as a pass

Substitution can be written as a transform of a single layer. It hands types back, puts the
replacement for its name, and goes below a binder only if there is something to replace; all other
nodes are rebuilt. A binder that would capture is renamed by a run of the same transform, which has
a memo of its own, and the visit goes on in the renamed body. That is no child of the node, but it
is as large as the body.

A memo changes nothing for a transform. So the pass comes to substitution, the runs that rename
included, on anything that it is run on, `Pass.run_substitution`.
-/

namespace RecordLambda

variable {self : Value → Except PassError Value} {d : Nat} {v : Value} {n : Node}

namespace Script

/-- Puts the replacement for its own name. -/
def replaceVar (s : Substitution) (n : Node) : Script :=
  .done (.node (if n = Term.var s.name then s.replacement else n))

/-- An abstraction around what visiting its body comes to. -/
def bind (y : String) (A : Ty) (body : Term) : Script :=
  .visit body fun b =>
    match Form.abs.build [y] [.node A, b] with
    | .ok m => .done (.node m)
    | .error e => .fail (.build e)

/-- Goes below a binder. Where it would capture, it is renamed by a run of its own. -/
def replaceBelow (rename : Substitution → Term → Except PassError Product) (s : Substitution) :
    Node → Script
  | .term (.abs y A b) =>
    if y = s.name ∨ s.name ∉ b.freeVars then .done (.node (Term.abs y A b))
    else if y ∈ s.replacement.freeVars then
      let z := fresh y (s.replacement.freeVars ++ b.freeVars ++ [s.name])
      match rename ⟨y, .var z⟩ b with
      | .ok (.node (.term b')) => bind z A b'
      | .ok _ => .fail (.noNode BuiltIn.substitution.title)
      | .error e => .fail e
    else bind y A b
  | n => .done (.node n)

end Script

/-- The transform for a substitution, where `rename` is how binders are renamed. -/
def Pass.replacing (rename : Substitution → Term → Except PassError Product) (s : Substitution) :
    Pass where
  kind := .transform
  layers := [{
    name := BuiltIn.substitution.name
    title := BuiltIn.substitution.title
    handlers := [
      ⟨"type", [.ty], fun n => .done (.node n)⟩,
      ⟨"var", [.var], Script.replaceVar s⟩,
      ⟨"abs", [.abs], Script.replaceBelow rename s⟩]
    fallback := none
    run := some .visit
    memo := none
    requires := some [.substitution] }]

/-- The transform for a substitution. A binder is renamed by a run of the transform for the new
name, which has a memo of its own. The runs are followed down to a depth. -/
def Pass.substitution : Nat → Substitution → Pass
  | 0 => .replacing fun _ _ => .error .tooDeep
  | depth + 1 => .replacing fun s t =>
    ((substitution depth s).run t (Context.ofObjects [.substitution s])).1

/-- The children are all the same just if they are equal. -/
lemma Value.allSame_iff {ns ms : List Node} :
    allSame (ns.map .node) (ms.map .node) = true ↔ ns = ms := by
  induction ns generalizing ms with
  | nil => cases ms <;> simp [allSame]
  | cons n ns ih =>
    cases ms with
    | nil => simp [allSame]
    | cons m ms => simp [allSame, same, ih]

/-- Built from its own fields and children, a node comes out again. -/
lemma Node.build_self (n : Node) :
    n.form.build (n.fields.map Prod.snd) (n.children.map .node) = .ok n := by
  rcases n with T | t | _
  · cases T <;> rfl
  · cases t <;> rfl
  · rfl

/-- Where the fields stay, a node is built again unless its children stay too. -/
lemma Node.replace_fields (n : Node) (ws : List Value) :
    n.replace n.fields ws =
      if Value.allSame ws (n.children.map .node) then .ok (n, true)
      else (n.form.build (n.fields.map Prod.snd) ws).map fun m => (m, false) := by
  have noSelf : (n.fields.lookup "self").isSome = false := by
    rcases n with T | t | _
    · cases T <;> rfl
    · cases t <;> rfl
    · rfl
  have kept : n.fields.map (fun f => (f.1, updated n.fields f.1 f.2)) = n.fields := by
    rcases n with T | t | _
    · cases T <;> simp [fields, updated]
    · cases t <;> simp [fields, updated]
    · rfl
  have own : n.fields.filter (fun f => !(n.fields.map Prod.fst).contains f.1) = [] := by
    apply List.filter_eq_nil_iff.2
    intro f mem
    rw [List.contains_iff_mem.2 (List.mem_map_of_mem mem)]
    exact Bool.false_ne_true
  unfold replace
  simp only [noSelf, kept, own, beq_self_eq_true]
  cases Value.allSame ws (n.children.map .node) with
  | true => rfl
  | false => cases n.form == .proj <;> rfl

/-- If the visits of the children come to nodes, the node is rebuilt from these. -/
lemma Script.result_rebuild {f : Node → Node} {m : Node}
    (each : ∀ c ∈ n.children, self c = .ok (.node (f c)))
    (builds : n.form.build (n.fields.map Prod.snd) ((n.children.map f).map .node) = .ok m) :
    (rebuild n id).result self = .ok (.node m) := by
  have values : (n.children.map fun c => Value.node (f c)) = (n.children.map f).map .node := by
    rw [List.map_map]
    rfl
  have fields : n.fields.map (fun f => (f.1, id f.2)) = n.fields := List.map_id n.fields
  rw [rebuild, visitChildren, result_visitAll _ each, values]
  simp only [fields, Node.replace_fields, Value.allSame_iff]
  by_cases same : n.children.map f = n.children
  · rw [same, Node.build_self] at builds
    cases builds
    rw [if_pos same]
    rfl
  · rw [if_neg same, builds]
    rfl

lemma Value.size_pos (v : Value) : 0 < v.size := by
  cases v with
  | node n =>
    rcases n with T | t | _
    · cases T <;> exact Nat.succ_pos _
    · cases t <;> exact Nat.succ_pos _
    · exact Nat.succ_pos _
  | _ => exact Nat.succ_pos _

/-- What visiting a body comes to is put below the binder. -/
lemma Script.result_bind {y : String} {A : Ty} {b r : Term}
    (visits : self (.node b) = .ok (.node r)) :
    (bind y A b).result self = .ok (.node (Term.abs y A r)) := by
  rw [bind, result, visits]
  rfl

/-- Below a binder substitution goes on in the body, or in the renamed one, which is as large. -/
lemma Script.result_replaceBelow {rename : Substitution → Term → Except PassError Product}
    {s : Substitution} {y : String} {A : Ty} {b : Term}
    (renames : ∀ z, rename ⟨y, .var z⟩ b = .ok (.node (b.subst y (.var z))))
    (visits : ∀ b' : Term, b'.size = b.size →
      self (.node b') = .ok (.node (b'.subst s.name s.replacement))) :
    (replaceBelow rename s (Term.abs y A b)).result self =
      .ok (.node ((Term.abs y A b).subst s.name s.replacement)) := by
  rw [replaceBelow, Term.subst_abs]
  split
  · rfl
  split
  · dsimp only
    rw [renames]
    exact result_bind (visits _ (Term.size_subst_var b y _))
  · exact result_bind (visits b rfl)

namespace Pass

variable {rename : Substitution → Term → Except PassError Product} {s : Substitution} {k : Nat}

/-- By induction on the size, a visit comes to the node with the replacement made, if the runs that
rename do. -/
lemma result_replacing
    (renames : ∀ y z (b : Term), b.size < k →
      rename ⟨y, .var z⟩ b = .ok (.node (b.subst y (.var z))))
    (le : v.size ≤ k) (lt : v.size * 2 < d) :
    (replacing rename s).result d (replacing rename s).layers v =
      answered .node (v.subst s.name s.replacement) := by
  induction d using Nat.strongRecOn generalizing v with
  | _ d ih =>
    have pos : 0 < v.size := v.size_pos
    -- two steps down, since the base is below the layer
    obtain ⟨d, rfl⟩ : ∃ d', d = d' + 2 := ⟨d - 2, by omega⟩
    cases v with
    | scalar => rfl
    | tuple => rfl
    | node n =>
      have smaller : ∀ m : Node, m.size < n.size → ∀ d' < d + 2, d ≤ d' →
          (replacing rename s).result d' (replacing rename s).layers m =
            .ok (.node (m.subst s.name s.replacement)) := by
        intro m less d' lt' ge
        have lt : n.size * 2 < d + 2 := lt
        exact ih d' lt' (Nat.le_trans (Nat.le_of_lt less) le) (by show m.size * 2 < d'; omega)
      have each : ∀ m ∈ n.children, (replacing rename s).result d (replacing rename s).layers m =
          .ok (.node (m.subst s.name s.replacement)) := fun m mem =>
        smaller m (Node.size_lt_of_mem_children mem) d (by omega) (Nat.le_refl d)
      cases n with
      | hole => rfl
      | ty T => cases T <;> rfl
      | term t =>
        cases t with
        | var y =>
          show Except.ok (Value.node (if (Term.var y : Node) = Term.var s.name then _ else _)) =
            .ok (.node ((Term.var y).subst s.name s.replacement))
          rw [Term.subst_var]
          by_cases eq : y = s.name
          · rw [if_pos eq, if_pos (by rw [eq])]
          · rw [if_neg eq, if_neg fun same => eq (Term.var.inj (Node.term.inj same))]
        | abs y A b =>
          have less : b.size < (Term.abs y A b).size := by
            rw [Term.size]
            omega
          apply Script.result_replaceBelow
          · exact fun z => renames y z b (Nat.lt_of_lt_of_le less le)
          · intro b' size
            exact smaller b' (Nat.lt_of_le_of_lt (Nat.le_of_eq size) less) (d + 1)
              (Nat.lt_succ_self _) (Nat.le_succ d)
        | app f a => exact Script.result_rebuild each (by rw [Node.subst, Term.subst_app]; rfl)
        | cell l w r => exact Script.result_rebuild each (by rw [Node.subst, Term.subst_cell]; rfl)
        | proj r l => exact Script.result_rebuild each (by rw [Node.subst, Term.subst_proj]; rfl)
        | empty => exact Script.result_rebuild each (by rw [Node.subst, Term.subst_empty]; rfl)
        | hole => exact Script.result_rebuild each (by rw [Node.subst, Term.subst_hole]; rfl)

/-- The pass may begin where a substitution is given. -/
lemma ensure_substitution {title : String} {c : Context} (given : c.contains .substitution) :
    ensure title [.substitution] c = .ok () := by
  simp [ensure, Kind.isAnalysis, given]

/-- The pass comes to the node with the replacement made, if the runs that rename do. -/
lemma run_replacing
    (renames : ∀ y z (b : Term), b.size < v.size →
      rename ⟨y, .var z⟩ b = .ok (.node (b.subst y (.var z))))
    {c : Context} (given : c.contains .substitution) :
    ((replacing rename s).run v c).1 =
      ((v.subst s.name s.replacement).mapError .fault).map .node := by
  have deep : v.size * 2 < (replacing rename s).depthFor v := Nat.lt_succ_self _
  have result := result_replacing (s := s) renames (Nat.le_refl _) deep
  have ends := answered_ne_tooDeep (f := .node) (o := v.subst s.name s.replacement)
  rw [← result] at ends
  have direct : (replacing rename s).kind = .analysis → (replacing rename s).layers.length = 1 :=
    fun _ => rfl
  rw [run, runTo_of_direct rfl (List.cons_ne_nil _ _) direct ends, result]
  have met : ensure (replacing rename s).title (replacing rename s).requires c = .ok () :=
    ensure_substitution given
  rw [outcome, met]
  cases v.subst s.name s.replacement <;> rfl

/-- The pass, with runs of its own nested inside, comes to the node with the replacement made. -/
lemma run_substitution {c : Context} (given : c.contains .substitution) (le : v.size ≤ d) :
    ((substitution d s).run v c).1 =
      ((v.subst s.name s.replacement).mapError .fault).map .node := by
  induction d generalizing v s c with
  | zero => exact absurd (Nat.lt_of_lt_of_le v.size_pos le) (Nat.lt_irrefl 0)
  | succ d ih =>
    refine run_replacing (fun y z b less => ?_) given
    have le : b.size ≤ d := Nat.le_of_lt_succ (Nat.lt_of_lt_of_le less le)
    exact ih (v := .node b) rfl le

/-- Where the context holds the substitution, the transform with its memo comes to what substitution
comes to as a pass of the library. -/
lemma run_substitution_eq_builtIn {c : Context}
    (held : c.get? .substitution = some (.substitution s)) (le : v.size ≤ d) :
    ((substitution d s).run v c).1 = (BuiltIn.substitution.run v c).2 := by
  have given : c.contains .substitution := by rw [OrderedMap.contains, held]; rfl
  have met : ensure BuiltIn.substitution.title BuiltIn.substitution.requires c = .ok () :=
    ensure_substitution given
  rw [run_substitution given le, BuiltIn.run, met, BuiltIn.body, held]

end Pass

end RecordLambda
