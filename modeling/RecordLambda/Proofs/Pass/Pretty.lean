import RecordLambda.Pass.Manager
import RecordLambda.Proofs.Pass.Transparent
import RecordLambda.Proofs.Syntax.Record

/-!
# Notation as a pass

The notation can be found by an analysis of a single layer. Most nodes are laid out from what is
written for their children. For a chain the fields along it are visited, and then its end unless
that is an empty record; the rests of cells are not visited. The first hole in this order makes the
visit fail.

A memo changes nothing for an analysis of a single layer. So the pass comes to the notation, on
anything that it is run on, `Pass.run_printer`.
-/

namespace RecordLambda

variable {α : Type} {self : Value → Except PassError Value} {d : Nat} {v : Value} {n : Node}

/-- A text. -/
def Value.ofText (s : String) : Value := .scalar (.text s)

namespace Node

/-- The form of the first hole in a node. -/
def firstHole? : Node → Option Form
  | .ty T => T.firstHole?
  | .term t => t.firstHole?
  | .hole => some .node

/-- The notation of a node; a hole in it is shown as a blank. -/
def text : Node → String
  | .ty T => T.text
  | .term t => t.text
  | .hole => "_"

/-- What is written for a node that is no chain, if this is written for its children. -/
def layout : Node → List String → String
  | .ty (.base x), [] | .term (.var x), [] => x
  | .ty (.arrow A _), [a, b] => parenIf A.isArrow a ++ " → " ++ b
  | .term (.app f e), [a, b] => parenIf f.isAbs a ++ " " ++ parenIf e.isLoose b
  | .term (.abs x _ _), [a, b] => "λ" ++ x ++ ":" ++ a ++ ". " ++ b
  | .term (.proj r l), [a] => parenIf r.isLoose a ++ "." ++ l
  | _, _ => ""

/-- What a chain ends in. -/
def chainEnd : Node → Node
  | .ty T => T.chainEnd
  | .term t => t.chainEnd
  | .hole => .hole

/-- An empty record of either kind. -/
def isEnd : Node → Bool
  | .ty .empty | .term .empty => true
  | _ => false

end Node

namespace Script

/-- Visits the children of a node and lays out what is written for them. -/
def inline (n : Node) : Script :=
  visitChildren n fun n vs => .done (.ofText (n.layout (vs.map Value.plain)))

/-- Visits the fields of a chain and then its end, unless that is an empty record. -/
def chain (sep : String) (n : Node) : Script :=
  let cells := (Value.node n).chainFields
  visitAll (cells.map Prod.snd) fun vs =>
    let body := Text.commaSep (List.zipWith (fun c v => c.1 ++ sep ++ v.plain) cells vs)
    if n.chainEnd.isEnd then .done (.ofText ("\x7b" ++ body ++ "\x7d"))
    else .visit n.chainEnd fun v => .done (.ofText ("\x7b" ++ body ++ " | " ++ v.plain ++ "\x7d"))

end Script

/-- What is said of a value that has no notation of its own. -/
def Value.unwritten : Value → Fault
  | .node n => .unwritable n.form
  | v => .notSyntax v

/-- The analysis for the notation. -/
def Pass.printer : Pass where
  kind := .analysis
  layers := [{
    name := BuiltIn.printer.name
    title := BuiltIn.printer.title
    handlers := [
      ⟨"inline", [.baseTy, .arrowTy, .var, .abs, .app, .proj], Script.inline⟩,
      ⟨"record type", [.emptyTy, .cellTy], Script.chain ": "⟩,
      ⟨"record", [.empty, .cell], Script.chain " = "⟩]
    fallback := some fun v => .fail (.fault v.unwritten)
    run := some (.collect Kind.text.name)
    memo := none
    requires := some [] }]

/-- A text, unless there is a hole that keeps it from being written. -/
def unlessHole (hole : Option Form) (s : String) : Except Fault String :=
  match hole with
  | some f => .error (.unwritable f)
  | none => .ok s

/-- A node is written unless there is a hole in it. -/
lemma Node.pretty_eq (n : Node) : n.pretty = unlessHole n.firstHole? n.text := by
  cases n <;> rfl

/-- The first hole of two nodes. -/
lemma Node.firstHole?_two (m m' : Node) :
    m.firstHole?.or m'.firstHole? = [m, m'].findSome? firstHole? := by
  rw [List.findSome?_cons, List.findSome?_singleton]
  cases m.firstHole? <;> rfl

/-- A hole in one of the nodes visited is what the script fails for. -/
lemma Script.result_visitAll_hole {ns : List Node} {k : List Value → Script} {f : Form}
    (each : ∀ m ∈ ns, self m = Pass.answered .ofText m.pretty)
    (hole : ns.findSome? Node.firstHole? = some f) :
    (visitAll ns k).result self = .error (.fault (.unwritable f)) := by
  induction ns generalizing k with
  | nil => cases hole
  | cons n ns ih =>
    obtain ⟨first, rest⟩ := List.forall_mem_cons.1 each
    rw [visitAll, result, first, Node.pretty_eq]
    rw [List.findSome?_cons] at hole
    cases here : n.firstHole? with
    | some g =>
      rw [here] at hole
      cases hole
      rfl
    | none =>
      rw [here] at hole
      exact ih rest hole

/-- If there is none, the script goes on with the texts. -/
lemma Script.result_visitAll_text {ns : List Node} {k : List Value → Script}
    (each : ∀ m ∈ ns, self m = Pass.answered .ofText m.pretty)
    (none : ns.findSome? Node.firstHole? = none) :
    (visitAll ns k).result self = (k (ns.map fun m => .ofText m.text)).result self := by
  apply result_visitAll
  intro m mem
  rw [each m mem, Node.pretty_eq, List.findSome?_eq_none_iff.1 none m mem]
  rfl

/-- A node whose text is laid out from those of its children is written as it should be. -/
lemma Script.result_inline (each : ∀ m ∈ n.children, self m = Pass.answered .ofText m.pretty)
    (holes : n.firstHole? = n.children.findSome? Node.firstHole?)
    (writes : n.text = n.layout (n.children.map Node.text)) :
    (inline n).result self = Pass.answered .ofText n.pretty := by
  rw [inline, visitChildren, Node.pretty_eq, holes]
  cases hole : n.children.findSome? Node.firstHole? with
  | some f => exact result_visitAll_hole each hole
  | none =>
    have plain : Value.plain ∘ (fun m : Node => .ofText m.text) = Node.text := rfl
    rw [result_visitAll_text each hole, List.map_map, plain, ← writes]
    rfl

/-- What is written behind the cells of a chain. -/
def Node.closing (e : Node) : String :=
  if e.isEnd then "\x7d" else " | " ++ e.text ++ "\x7d"

/-- The end of a chain that is not written has no hole. -/
lemma Node.firstHole?_of_isEnd {e : Node} (last : e.isEnd) : e.firstHole? = none := by
  unfold isEnd at last
  split at last
  · rfl
  · rfl
  · cases last

/-- The first hole along a chain, cell by cell. -/
lemma findSome?_or_eq_foldr (cells : List (String × Node)) (h : Option Form) :
    ((cells.map Prod.snd).findSome? Node.firstHole?).or h =
      cells.foldr (fun c h => c.2.firstHole?.or h) h := by
  induction cells with
  | nil => rfl
  | cons c cells ih =>
    rw [List.foldr_cons, ← ih, List.map_cons, List.findSome?_cons]
    cases c.2.firstHole? <;> rfl

/-- A chain whose text is that of its fields and its end is written as it should be. -/
lemma Script.result_chain {sep : String} {cells : List (String × Node)} {e : Node}
    (cells_eq : (Value.node n).chainFields = cells) (end_eq : n.chainEnd = e)
    (fields : ∀ c ∈ cells, self c.2 = Pass.answered .ofText c.2.pretty)
    (last : e.isEnd = false → self e = Pass.answered .ofText e.pretty)
    (holes : n.firstHole? = cells.foldr (fun c h => c.2.firstHole?.or h) e.firstHole?)
    (writes : n.text =
      "\x7b" ++ Text.commaSep (cells.map fun c => c.1 ++ sep ++ c.2.text) ++ e.closing) :
    (chain sep n).result self = Pass.answered .ofText n.pretty := by
  have each : ∀ m ∈ cells.map Prod.snd, self m = Pass.answered .ofText m.pretty :=
    List.forall_mem_map.2 fields
  rw [chain, cells_eq, end_eq, Node.pretty_eq, holes, ← findSome?_or_eq_foldr, writes]
  cases hole : (cells.map Prod.snd).findSome? Node.firstHole? with
  | some f => exact result_visitAll_hole each hole
  | none =>
    have body : List.zipWith (fun c v => c.1 ++ sep ++ v.plain) cells
        ((cells.map Prod.snd).map fun m => Value.ofText m.text) =
          cells.map fun c => c.1 ++ sep ++ c.2.text := by
      rw [List.map_map, List.zipWith_map_right, List.zipWith_self]
      rfl
    rw [result_visitAll_text each hole, Node.closing]
    dsimp only
    rw [body]
    cases isEnd : e.isEnd with
    | true =>
      rw [Node.firstHole?_of_isEnd isEnd]
      rfl
    | false =>
      rw [if_neg Bool.false_ne_true, if_neg Bool.false_ne_true, result, last isEnd, Node.pretty_eq]
      cases e.firstHole? with
      | some f => rfl
      | none =>
        rw [← String.append_assoc, ← String.append_assoc]
        rfl

/-- Items separated by commas, item by item. -/
lemma Text.commaSep_append (s : String) (ss : List String) (c : String) :
    commaSep (s :: ss) ++ c = s ++ ss.foldr (fun t r => ", " ++ t ++ r) c := by
  induction ss generalizing s with
  | nil => rfl
  | cons t ss ih =>
    rw [commaSep, String.append_assoc, ih, String.append_assoc, List.foldr_cons,
      String.append_assoc]
    nofun

/-! ## Chains -/

/-- Chains that are written cell by cell, where `rest` is what is written for the rest of one. -/
structure Chains.Written (C : Chains α) (node : α → Node) (sep : String) (rest : α → String) :
    Prop where
  chainFields : ∀ c, (Value.node (node c)).chainFields = (C.fields c).map fun f => (f.1, node f.2)
  chainEnd : ∀ c, (node c).chainEnd = node (C.chainEnd c)
  text_cell : ∀ l a r, (node (C.cell l a r)).text = "\x7b" ++ l ++ sep ++ (node a).text ++ rest r
  rest_cell : ∀ l a r, rest (C.cell l a r) = ", " ++ l ++ sep ++ (node a).text ++ rest r
  rest_end : ∀ c, rest (C.chainEnd c) = (node (C.chainEnd c)).closing
  firstHole?_cell : ∀ l a r,
    (node (C.cell l a r)).firstHole? = (node a).firstHole?.or (node r).firstHole?
  size_value : ∀ l a r, (node a).size < (node (C.cell l a r)).size
  size_rest : ∀ l a r, (node r).size < (node (C.cell l a r)).size

/-- The chains of types are written cell by cell. -/
lemma Ty.written_chains : Ty.chains.Written .ty ": " (write .rest) where
  chainFields _ := rfl
  chainEnd _ := rfl
  text_cell _ _ _ := rfl
  rest_cell _ _ _ := rfl
  rest_end T := by
    induction T with
    | cell l A R _ ih => exact ih
    | _ => rfl
  firstHole?_cell _ _ _ := rfl
  size_value _ _ _ := by simp only [Node.size, chains, size]; omega
  size_rest _ _ _ := by simp only [Node.size, chains, size]; omega

/-- The chains of terms are written cell by cell. -/
lemma Term.written_chains : Term.chains.Written .term " = " (write .rest) where
  chainFields _ := rfl
  chainEnd _ := rfl
  text_cell _ _ _ := rfl
  rest_cell _ _ _ := rfl
  rest_end t := by
    induction t with
    | cell l v r _ ih => exact ih
    | _ => rfl
  firstHole?_cell _ _ _ := rfl
  size_value _ _ _ := by simp only [Node.size, chains, size]; omega
  size_rest _ _ _ := by simp only [Node.size, chains, size]; omega

namespace Chains.Written

variable {C : Chains α} {node : α → Node} {sep : String} {rest : α → String}

/-- A chain is written field by field, and closed behind its end. -/
lemma text_eq (wr : C.Written node sep rest) (l : String) (a r : α) :
    (node (C.cell l a r)).text =
      "\x7b" ++ Text.commaSep (((C.fields (C.cell l a r)).map fun f => (f.1, node f.2)).map fun f =>
        f.1 ++ sep ++ f.2.text) ++ (node (C.chainEnd (C.cell l a r))).closing := by
  have behind : rest r = (C.fields r).foldr _ (rest (C.chainEnd r)) :=
    C.eq_foldr rest (fun f s => ", " ++ f.1 ++ sep ++ (node f.2).text ++ s) wr.rest_cell r
  rw [C.fields_cell, C.chainEnd_cell, List.map_cons, List.map_cons, String.append_assoc,
    Text.commaSep_append, List.foldr_map, List.foldr_map, wr.text_cell, behind, wr.rest_end]
  simp only [String.append_assoc]

/-- The script for a chain comes to its text if the visits of all that is smaller do. -/
lemma result_chain {self : Value → Except PassError Value} (wr : C.Written node sep rest)
    (l : String) (a r : α)
    (smaller : ∀ m : Node, m.size < (node (C.cell l a r)).size →
      self m = Pass.answered .ofText m.pretty) :
    (Script.chain sep (node (C.cell l a r))).result self =
      Pass.answered .ofText (node (C.cell l a r)).pretty := by
  obtain ⟨fields, last⟩ :=
    C.lt_of_view (μ := fun c => (node c).size) wr.size_value wr.size_rest (C.cell l a r)
  refine Script.result_chain (wr.chainFields _) (wr.chainEnd _) ?_ ?_ ?_ (wr.text_eq l a r)
  · exact List.forall_mem_map.2 fun f mem => smaller _ (fields f mem)
  · intro _
    apply smaller
    apply last
    rw [C.fields_cell]
    exact List.cons_ne_nil _ _
  · rw [List.foldr_map]
    exact C.eq_foldr (fun c => (node c).firstHole?) (fun f h => (node f.2).firstHole?.or h)
      wr.firstHole?_cell _

end Chains.Written

/-! ## The pass -/

namespace Pass

/-- By induction on the size, a visit comes to the text of what is visited. -/
lemma result_printer (lt : v.size < d) :
    printer.result d printer.layers v = answered .ofText v.pretty := by
  induction d generalizing v with
  | zero => cases lt
  | succ d ih =>
    cases v with
    | scalar s => rfl
    | tuple vs => rfl
    | node n =>
      have smaller : ∀ m : Node, m.size < n.size →
          printer.result d printer.layers m = answered .ofText m.pretty := by
        intro m less
        exact ih (Nat.lt_of_lt_of_le less (Nat.le_of_lt_succ lt))
      have each := fun m mem => smaller m (Node.size_lt_of_mem_children mem)
      cases n with
      | hole => rfl
      | ty T =>
        cases T with
        | base x => rfl
        | hole => rfl
        | arrow A B => exact Script.result_inline each (Node.firstHole?_two A B) rfl
        | empty => rfl
        | cell l A R => exact Ty.written_chains.result_chain l A R smaller
      | term t =>
        cases t with
        | var x => rfl
        | hole => rfl
        | app f a => exact Script.result_inline each (Node.firstHole?_two f a) rfl
        | abs x A b => exact Script.result_inline each (Node.firstHole?_two A b) rfl
        | proj r l => exact Script.result_inline each List.findSome?_singleton.symm rfl
        | empty => rfl
        | cell l w r => exact Term.written_chains.result_chain l w r smaller

/-- With its memo, the analysis comes to the notation. -/
lemma run_printer (v : Value) (c : Context) :
    (printer.run v c).1 = (v.pretty.mapError PassError.fault).map fun s =>
      .object (.custom Kind.text.name (.ofText s)) :=
  run_of_answered rfl rfl rfl rfl (fun _ => result_printer) c

end Pass

end RecordLambda
