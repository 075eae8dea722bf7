import RecordLambda.Syntax.Build
import RecordLambda.Proofs.Text.Quoted

/-!
# Canonical text identifies a node

Whatever their names hold, different nodes have different canonical texts. Names are not restricted
as they are for the conventional notation, since a quoted text can be told from what follows it.

The same goes for the texts of nodes, `Node.toldApart_chars`, and this is what the induction is
about. The form is seen from the name that stands before the first bracket; the form says which
fields and how many children there are, and each of these ends where it ends. A node is what it is
built from, so there is one argument for all forms: `Form.build_parts`.
-/

namespace RecordLambda

open Text

variable {f g : Form} {n m : Node} {r s : List Char}

/-! ## Nodes and their parts -/

/-- A node is built again from its form, its fields and its children. -/
lemma Form.build_parts (n : Node) :
    n.form.build (n.fields.map Prod.snd) (n.children.map .node) = .ok n := by
  cases n with
  | ty T => cases T <;> rfl
  | term t => cases t <;> rfl
  | hole => rfl

/-- Nodes of one form with the same fields and children are the same. -/
lemma Node.eq_of_parts (form : n.form = m.form) (fields : n.fields = m.fields)
    (children : n.children = m.children) : n = m := by
  have built := Form.build_parts n
  rw [form, fields, children, Form.build_parts m] at built
  exact (Except.ok.inj built).symm

/-- The names of the fields that go with a form. -/
def Form.fieldNames : Form → List String
  | baseTy | var => ["name"]
  | abs => ["param"]
  | cellTy | proj | cell => ["label"]
  | arrowTy | emptyTy | app | empty | ty | term | node => []

/-- The number of children that go with a form. -/
def Form.arity : Form → Nat
  | arrowTy | cellTy | app | abs | cell => 2
  | proj => 1
  | baseTy | emptyTy | var | empty | ty | term | node => 0

/-- The names of the fields are those of the form. -/
lemma Node.map_fst_fields (n : Node) : n.fields.map Prod.fst = n.form.fieldNames := by
  cases n with
  | ty T => cases T <;> rfl
  | term t => cases t <;> rfl
  | hole => rfl

/-- There are as many children as the form has. -/
lemma Node.length_children (n : Node) : n.children.length = n.form.arity := by
  cases n with
  | ty T => cases T <;> rfl
  | term t => cases t <;> rfl
  | hole => rfl

/-! ## Names of forms -/

/-- The characters that may follow the name of a form. -/
def openers : List Char := ['[', '(']

/-- A form is found by its name. -/
lemma Form.ofName?_name (f : Form) : ofName? f.name = some f := by
  cases f <;> rfl

/-- No name of a form has a bracket in it. -/
lemma Form.not_mem_openers (f : Form) : f.name.toList.all (· ∉ openers) := by
  cases f <;> decide

/-- The name of a form ends where the first bracket is. -/
lemma Form.takeWhile_name {c : Char} (opens : c ∈ openers) :
    (f.name.toList ++ c :: r).takeWhile (· ∉ openers) = f.name.toList := by
  have all : ∀ d ∈ f.name.toList, decide (d ∉ openers) = true :=
    List.all_eq_true.1 f.not_mem_openers
  rw [List.takeWhile_append_of_pos all, List.takeWhile_cons_of_neg (by simpa using opens),
    List.append_nil]

/-- The name of a form ends where a bracket opens. -/
lemma Form.toldApart_name {c d : Char} (opensC : c ∈ openers) (opensD : d ∈ openers)
    (eq : f.name.toList ++ c :: r = g.name.toList ++ d :: s) : f = g ∧ c :: r = d :: s := by
  have names := congrArg (List.takeWhile (· ∉ openers)) eq
  rw [takeWhile_name opensC, takeWhile_name opensD] at names
  have same : some f = some g := by
    rw [← ofName?_name f, ← ofName?_name g, String.toList_inj.1 names]
  rw [names] at eq
  exact ⟨Option.some.inj same, List.append_cancel_left eq⟩

/-! ## Fields -/

/-- A field with its name. -/
def fieldChars (e : String × String) : List Char := e.1.toList ++ '=' :: quoteChars e.2.toList

/-- The fields in brackets, if there are any. -/
def bracketChars : List (String × String) → List Char
  | [] => []
  | fs => '[' :: ([','].intercalate (fs.map fieldChars) ++ [']'])

/-- Fields of one name can be told apart. -/
lemma toldApart_fieldChars {e e' : String × String} (key : e.1 = e'.1) :
    ToldApart fieldChars e e' := by
  intro r s eq
  obtain ⟨k, v⟩ := e
  obtain ⟨k', v'⟩ := e'
  cases key
  simp only [fieldChars, List.append_assoc, List.cons_append] at eq
  have quoted := (List.cons.inj (List.append_cancel_left eq)).2
  obtain ⟨text, left⟩ := toldApart_quoteChars _ _ _ _ quoted
  cases String.toList_inj.1 text
  exact ⟨rfl, left⟩

/-- The fields of nodes of one form can be told apart, with their brackets. -/
lemma toldApart_bracketChars {fs gs : List (String × String)}
    (keys : fs.map Prod.fst = gs.map Prod.fst) (eq : bracketChars fs ++ r = bracketChars gs ++ s) :
    fs = gs ∧ r = s := by
  rw [← List.forall₂_eq_eq_eq, List.forall₂_map_left_iff, List.forall₂_map_right_iff] at keys
  have items := keys.imp fun _ _ => toldApart_fieldChars
  cases items with
  | nil => exact ⟨rfl, eq⟩
  | cons first rest =>
    simp only [bracketChars, List.cons_append, List.append_assoc] at eq
    obtain ⟨same, left⟩ := toldApart_intercalate (.cons first rest) (List.cons.inj eq).2
    exact ⟨same, (List.cons.inj left).2⟩

/-! ## Whole nodes -/

/-- The characters of items separated by commas. -/
lemma toList_commaSep (xs : List String) :
    (commaSep xs).toList = [',', ' '].intercalate (xs.map String.toList) := by
  induction xs with
  | nil => rfl
  | cons x xs ih =>
    cases xs with
    | nil => simp [commaSep]
    | cons y ys =>
      rw [commaSep]
      · simp only [String.toList_append, ih, List.map_cons, List.intercalate_cons_cons]
        rfl
      · exact List.cons_ne_nil y ys

/-- The characters of the fields, however they are written. -/
lemma map_toList_fields {text : String × String → String}
    (same : ∀ e, (text e).toList = fieldChars e) (fs : List (String × String)) :
    (fs.map text).map String.toList = fs.map fieldChars := by
  rw [List.map_map]
  apply List.map_congr_left
  intro e _
  exact same e

/-- The characters that are written for a form, its fields and its children. -/
lemma Form.toList_write (f : Form) (fs : List (String × String)) (cs : List String) :
    (f.write fs cs).toList =
      f.name.toList ++ (bracketChars fs ++
        '(' :: ([',', ' '].intercalate (cs.map String.toList) ++ [')'])) := by
  cases fs with
  | nil => simp [write, bracketChars, toList_commaSep]
  | cons e fs =>
    show (f.name ++ ("[" ++ ",".intercalate _ ++ "]") ++ "(" ++ commaSep cs ++ ")").toList = _
    simp only [String.toList_append, String.toList_intercalate, toList_commaSep]
    rw [map_toList_fields]
    · simp [bracketChars]
    · intro e
      simp [fieldChars, quote]

namespace Node

/-- The characters of the canonical text. -/
def chars (n : Node) : List Char := n.canonical.toList

/-- The text of a node is made of those of its children. -/
lemma canonical_eq_write (n : Node) :
    n.canonical = n.form.write n.fields (n.children.map canonical) := by
  cases n with
  | ty T => cases T <;> rfl
  | term t => cases t <;> rfl
  | hole => rfl

/-- The characters of a node, those of its children among them. -/
lemma chars_eq (n : Node) :
    n.chars =
      n.form.name.toList ++ (bracketChars n.fields ++
        '(' :: ([',', ' '].intercalate (n.children.map chars) ++ [')'])) := by
  rw [chars, canonical_eq_write, Form.toList_write, List.map_map]
  rfl

/-- Behind the name of a form a bracket opens. -/
lemma exists_opener (fs : List (String × String)) (r : List Char) :
    ∃ c ∈ openers, ∃ s, bracketChars fs ++ '(' :: r = c :: s := by
  cases fs with
  | nil => exact ⟨'(', by decide, r, rfl⟩
  | cons e fs => exact ⟨'[', by decide, _, rfl⟩

/-- The canonical texts of nodes can be told apart. -/
lemma toldApart_chars (n m : Node) : ToldApart chars n m := by
  -- on the size, since the children of a type, of a term and of a node are reached in one step
  induction size : n.size using Nat.strongRecOn generalizing n m with
  | _ k ih =>
    intro r s eq
    simp only [chars_eq n, chars_eq m, List.append_assoc, List.cons_append] at eq
    obtain ⟨c, opensC, u, eqC⟩ := exists_opener n.fields _
    obtain ⟨d, opensD, w, eqD⟩ := exists_opener m.fields _
    rw [eqC, eqD] at eq
    obtain ⟨form, left⟩ := Form.toldApart_name opensC opensD eq
    rw [← eqC, ← eqD] at left
    have keys : n.fields.map Prod.fst = m.fields.map Prod.fst := by
      rw [map_fst_fields, map_fst_fields, form]
    obtain ⟨fields, left⟩ := toldApart_bracketChars keys left
    have items : List.Forall₂ (ToldApart chars) n.children m.children := by
      rw [List.forall₂_iff_zip]
      constructor
      · rw [length_children, length_children, form]
      · intro a b mem
        have smaller := size_lt_of_mem_children (List.of_mem_zip mem).1
        exact ih _ (size ▸ smaller) a b rfl
    obtain ⟨children, left⟩ := toldApart_intercalate items (List.cons.inj left).2
    exact ⟨eq_of_parts form fields children, (List.cons.inj left).2⟩

/-- The canonical text identifies a node: nodes with the same canonical text are the same, be they
types, terms or unspecified, and whatever the texts are that they carry as names and labels, where a
text is any sequence of Unicode scalar values. Even in front of other text it is seen which node it
was and where its text ends. -/
theorem canonical_identifies (n m : Node) :
    (n.canonical = m.canonical ↔ n = m) ∧
    ∀ r s : String, n.canonical ++ r = m.canonical ++ s ↔ n = m ∧ r = s := by
  have both : ∀ r s : String, n.canonical ++ r = m.canonical ++ s ↔ n = m ∧ r = s := by
    intro r s
    constructor
    · intro eq
      have eq := congrArg String.toList eq
      rw [String.toList_append, String.toList_append] at eq
      obtain ⟨same, left⟩ := toldApart_chars n m r.toList s.toList eq
      exact ⟨same, String.toList_inj.1 left⟩
    · intro ⟨same, left⟩
      rw [same, left]
  refine ⟨?_, both⟩
  constructor
  · intro eq
    exact ((both "" "").1 (by rw [eq])).1
  · intro same
    rw [same]

example :
    (Node.term (.proj (.var "x'](\n") "\"'")).canonical =
      "Proj[label='\"\\''](Var[name=\"x'](\\n\"]())" := by
  decide

end Node

end RecordLambda
