import RecordLambda.Syntax.Pretty
import Mathlib.Data.List.Basic
import Mathlib.Tactic.Lemma

/-!
# Reading the conventional notation

A reader for what `Ty.write` and `Term.write` write. It goes from left to right and decides by the
next one or two characters what comes next, so it never has to go back. Arguments and labels are
read one by one behind what they belong to, since application and projection associate to the left.

Names are read as far as they go. So this works for plain names only, in which none of the
characters of the notation occurs.
-/

namespace RecordLambda

/-- Reads something off the front of a text and hands out what is left of the text. -/
abbrev Reader (α : Type) := List Char → Option (α × List Char)

/-! ## Names -/

/-- A character that is not part of the notation. -/
def isPlainChar (c : Char) : Bool :=
  c ∉ [' ', '.', ':', ',', '|', '=', '{', '}', '(', ')', 'λ', '→']

/-- A name that can be told from the notation around it. -/
def isPlainName (x : String) : Bool := x ≠ "" && x.toList.all isPlainChar

/-- Takes a name off the front of a text. -/
def readName (s : List Char) : String × List Char :=
  (String.ofList (s.takeWhile isPlainChar), s.dropWhile isPlainChar)

/-- A name that stands before the text ends there. -/
def EndsName (r : List Char) : Prop := ∀ c ∈ r.head?, isPlainChar c = false

/-- A character of the notation ends a name. -/
lemma endsName_cons {c : Char} {r : List Char} (no : isPlainChar c = false) :
    EndsName (c :: r) := by
  intro d mem
  cases mem
  exact no

/-- A plain name is read off where it ends. -/
lemma readName_append {x : String} {r : List Char} (plain : isPlainName x) (ends : EndsName r) :
    readName (x.toList ++ r) = (x, r) := by
  have all : ∀ c ∈ x.toList, isPlainChar c := List.all_eq_true.1 (Bool.and_eq_true_iff.1 plain).2
  have stop : r.takeWhile isPlainChar = [] ∧ r.dropWhile isPlainChar = r := by
    cases r with
    | nil => exact ⟨rfl, rfl⟩
    | cons c r =>
      have no := ends c rfl
      exact ⟨List.takeWhile_cons_of_neg (by simp [no]), List.dropWhile_cons_of_neg (by simp [no])⟩
  rw [readName, List.takeWhile_append_of_pos all, List.dropWhile_append_of_pos all, stop.1, stop.2,
    List.append_nil, String.ofList_toList]

/-- A plain name starts with no character of the notation. -/
lemma toList_append_ne {x : String} {c : Char} (plain : isPlainName x) (no : isPlainChar c = false)
    (r s : List Char) : x.toList ++ r ≠ c :: s := by
  obtain ⟨ne, all⟩ := Bool.and_eq_true_iff.1 plain
  intro eq
  cases eqX : x.toList with
  | nil => exact absurd (String.toList_eq_nil_iff.1 eqX) (by simpa using ne)
  | cons d w =>
    rw [eqX] at eq all
    cases eq
    rw [List.all_cons, no] at all
    cases all

/-! ## Chains -/

/-- Passes over a fixed text. -/
def skip (w s : List Char) : Option (List Char) :=
  if w.isPrefixOf s then some (s.drop w.length) else none

/-- The fixed text is passed over. -/
lemma skip_append (w s : List Char) : skip w (w ++ s) = some s := by
  simp [skip]

variable {α : Type}

/-- Reads something that stands before a closing character. -/
def closedBy (c : Char) (read : Reader α) : Reader α := fun s => do
  let (a, s) ← read s
  let s ← skip [c] s
  return (a, s)

/-- What stands before the closing character is read. -/
lemma closedBy_eq {c : Char} {read : Reader α} {s r : List Char} {a : α}
    (eq : read s = some (a, c :: r)) : closedBy c read s = some (a, r) := by
  rw [closedBy, eq]
  simp [skip]

/-- What chains of cells are made of, and what stands between a label and its element. -/
structure Chain (α : Type) where
  empty : α
  cell : String → α → α → α
  sep : List Char
  /-- The label can be told from what follows it. -/
  endsName : ∀ s, EndsName (sep ++ s)

namespace Chain

variable (c : Chain α) (elem rest : Reader α)

/-- Reads a cell of which the label comes next. -/
def readCell : Reader α := fun s => do
  let (l, s) := readName s
  let s ← skip c.sep s
  let (a, s) ← elem s
  let (b, s) ← rest s
  return (c.cell l a b, s)

/-- Reads a chain behind its opening brace. -/
def readOpened : Reader α
  | '}' :: s => some (c.empty, s)
  | s => c.readCell elem rest s

/-- Reads the rest of a chain behind one of its cells. -/
def readRest : Reader α
  | '}' :: s => some (c.empty, s)
  | ',' :: ' ' :: s => c.readCell elem rest s
  | ' ' :: '|' :: ' ' :: s => closedBy '}' elem s
  | _ => none

variable {c elem rest} {l : String} {s s' r : List Char} {a b : α}

/-- A cell is read from its label, its element and its rest. -/
lemma readCell_eq (plain : isPlainName l) (eqA : elem s = some (a, s'))
    (eqB : rest s' = some (b, r)) :
    c.readCell elem rest (l.toList ++ (c.sep ++ s)) = some (c.cell l a b, r) := by
  simp [readCell, readName_append plain (c.endsName s), skip_append, eqA, eqB]

/-- A chain that does not end at once starts with a label. -/
lemma readOpened_eq (plain : isPlainName l) (eqA : elem s = some (a, s'))
    (eqB : rest s' = some (b, r)) :
    c.readOpened elem rest (l.toList ++ (c.sep ++ s)) = some (c.cell l a b, r) := by
  rw [← readCell_eq plain eqA eqB, readOpened]
  exact toList_append_ne plain rfl _

end Chain

/-! ## Types -/

/-- What of a type is read. -/
inductive TyPart where
  /-- The type, arrows included. -/
  | whole
  /-- What stands to the left of an arrow. -/
  | dom
  /-- The arrow behind a type, if there is one. -/
  | cod (A : Ty)
  /-- The rest of a chain. -/
  | rest

namespace Ty

/-- Chains of record types. -/
def chain : Chain Ty := ⟨.empty, .cell, [':', ' '], fun _ => endsName_cons rfl⟩

/-- Reads what stands to the left of an arrow. -/
def readDom (whole rest : Reader Ty) : Reader Ty
  | '(' :: s => closedBy ')' whole s
  | '{' :: s => chain.readOpened whole rest s
  | s =>
    let (x, s) := readName s
    some (.base x, s)

/-- Reads the arrow behind a type, if there is one. -/
def readCod (whole : Reader Ty) (A : Ty) : Reader Ty
  | ' ' :: '→' :: ' ' :: s => do
    let (B, s) ← whole s
    return (.arrow A B, s)
  | s => some (A, s)

/-- Reads a type. The calls are followed down to a depth. -/
def read : Nat → TyPart → Reader Ty
  | 0, _ => fun _ => none
  | n + 1, .whole => fun s => do
    let (A, s) ← read n .dom s
    read n (.cod A) s
  | n + 1, .dom => readDom (read n .whole) (read n .rest)
  | n + 1, .cod A => readCod (read n .whole) A
  | n + 1, .rest => chain.readRest (read n .whole) (read n .rest)

end Ty

/-! ## Terms -/

/-- What of a term is read. -/
inductive TermPart where
  /-- The term, with all its arguments. -/
  | whole
  /-- An argument, with all its labels. -/
  | arg
  /-- The labels behind a term. -/
  | labels (t : Term)
  /-- The arguments behind a term. -/
  | args (t : Term)
  /-- A chain of which the opening brace is read. -/
  | opened
  /-- The rest of a chain. -/
  | rest

namespace Term

/-- Chains of records. -/
def chain : Chain Term := ⟨.empty, .cell, [' ', '=', ' '], fun _ => endsName_cons rfl⟩

/-- Reads an abstraction of which the lambda is read. -/
def readAbs (dom : Reader Ty) (whole : Reader Term) : Reader Term := fun s => do
  let (x, s) := readName s
  let s ← skip [':'] s
  let (A, s) ← dom s
  let s ← skip ['.', ' '] s
  let (b, s) ← whole s
  return (.abs x A b, s)

/-- Reads an abstraction, or a first term and the arguments behind it. -/
def readWhole (dom : Reader Ty) (whole arg : Reader Term) (args : Term → Reader Term) : Reader Term
  | 'λ' :: s => readAbs dom whole s
  | s => do
    let (t, s) ← arg s
    args t s

/-- Reads what can be an argument, and the labels behind it. -/
def readArg (whole opened : Reader Term) (labels : Term → Reader Term) : Reader Term
  | '(' :: s => do
    let (t, s) ← closedBy ')' whole s
    labels t s
  | '{' :: s => do
    let (t, s) ← opened s
    labels t s
  | s =>
    let (x, s) := readName s
    labels (.var x) s

/-- Reads the labels behind a term. -/
def readLabels (labels : Term → Reader Term) (t : Term) : Reader Term
  | '.' :: s =>
    let (l, s) := readName s
    labels (.proj t l) s
  | s => some (t, s)

/-- Reads the arguments behind a term. Behind a blank there is an argument, or the bar before the
end of a chain. -/
def readArgs (arg : Reader Term) (args : Term → Reader Term) (t : Term) : Reader Term
  | ' ' :: '|' :: s => some (t, ' ' :: '|' :: s)
  | ' ' :: s => do
    let (a, s) ← arg s
    args (.app t a) s
  | s => some (t, s)

/-- Reads a term. The calls are followed down to a depth. -/
def read : Nat → TermPart → Reader Term
  | 0, _ => fun _ => none
  | n + 1, .whole =>
    readWhole (Ty.read n .whole) (read n .whole) (read n .arg) fun t => read n (.args t)
  | n + 1, .arg => readArg (read n .whole) (read n .opened) fun t => read n (.labels t)
  | n + 1, .labels t => readLabels (fun t => read n (.labels t)) t
  | n + 1, .args t => readArgs (read n .arg) (fun t => read n (.args t)) t
  | n + 1, .opened => chain.readOpened (read n .whole) (read n .rest)
  | n + 1, .rest => chain.readRest (read n .whole) (read n .rest)

end Term

/-! ## Depth -/

/-- From some depth on `a` is read off the front of `s`, and `r` is left. -/
def Reads (read : Nat → Reader α) (s : List Char) (a : α) (r : List Char) : Prop :=
  ∃ d, ∀ n, d ≤ n → read n s = some (a, r)

namespace Reads

variable {β γ : Type} {f : Nat → Reader α} {g : Nat → Reader β} {h : Nat → Reader γ}
  {s r r' s₁ r₁ s₂ r₂ : List Char} {a a' : α} {b : β} {c : γ}

/-- What takes no reading is read at once. -/
lemma of_succ (step : ∀ n, f (n + 1) s = some (a, r)) : Reads f s a r := by
  refine ⟨1, ?_⟩
  rintro (_ | n) le
  · cases le
  · exact step n

/-- What takes one reading needs one more call than this reading. -/
lemma and_then (first : Reads g s₁ b r₁)
    (step : ∀ n, g n s₁ = some (b, r₁) → f (n + 1) s = some (a, r)) : Reads f s a r := by
  obtain ⟨d, first⟩ := first
  refine ⟨d + 1, ?_⟩
  rintro (_ | n) le
  · cases le
  · exact step n (first n (Nat.le_of_succ_le_succ le))

/-- Two readings have a depth in common. -/
lemma and (first : Reads g s₁ b r₁) (second : Reads h s₂ c r₂) :
    ∃ d, ∀ n, d ≤ n → g n s₁ = some (b, r₁) ∧ h n s₂ = some (c, r₂) := by
  obtain ⟨d₁, first⟩ := first
  obtain ⟨d₂, second⟩ := second
  refine ⟨max d₁ d₂, fun n le => ⟨first n ?_, second n ?_⟩⟩
  · exact Nat.le_trans (Nat.le_max_left d₁ d₂) le
  · exact Nat.le_trans (Nat.le_max_right d₁ d₂) le

/-- What takes two readings needs one more call than both of them. -/
lemma and_then₂ (first : Reads g s₁ b r₁) (second : Reads h s₂ c r₂)
    (step : ∀ n, g n s₁ = some (b, r₁) → h n s₂ = some (c, r₂) → f (n + 1) s = some (a, r)) :
    Reads f s a r := by
  obtain ⟨d, both⟩ := first.and second
  refine ⟨d + 1, ?_⟩
  rintro (_ | n) le
  · cases le
  · obtain ⟨first, second⟩ := both n (Nat.le_of_succ_le_succ le)
    exact step n first second

/-- One thing only is read. -/
lemma unique (first : Reads f s a r) (second : Reads f s a' r') : a = a' := by
  obtain ⟨d, both⟩ := first.and second
  obtain ⟨first, second⟩ := both d (Nat.le_refl d)
  rw [first] at second
  cases second
  rfl

end Reads

/-! ## What is read of types

One rule for each way in which a text for a type may go on. -/

namespace Ty

variable {x l : String} {s s' r : List Char} {A B R : Ty}

/-- A type that stands before the text ends there. -/
structure Ends (r : List Char) : Prop where
  name : EndsName r
  arrow : ∀ s, r ≠ ' ' :: '→' :: ' ' :: s

/-- A type ends before a character of the notation that is no blank. -/
lemma ends_cons {c : Char} (no : isPlainChar c = false) (blank : c ≠ ' ') : Ends (c :: r) :=
  ⟨endsName_cons no, fun _ eq => blank (List.cons.inj eq).1⟩

lemma ends_bar : Ends (' ' :: '|' :: r) := by
  refine ⟨endsName_cons rfl, ?_⟩
  intro s eq
  cases eq

lemma reads_base (plain : isPlainName x) (ends : EndsName r) :
    Reads (read · .dom) (x.toList ++ r) (.base x) r := by
  apply Reads.of_succ
  intro n
  show readDom _ _ _ = _
  rw [readDom, readName_append plain ends]
  · exact toList_append_ne plain rfl r
  · exact toList_append_ne plain rfl r

lemma reads_paren (whole : Reads (read · .whole) s A (')' :: r)) :
    Reads (read · .dom) ('(' :: s) A r :=
  whole.and_then fun _ => closedBy_eq

lemma reads_empty : Reads (read · .dom) ('{' :: '}' :: r) .empty r :=
  Reads.of_succ fun _ => rfl

lemma reads_cell (plain : isPlainName l) (field : Reads (read · .whole) s A s')
    (rest : Reads (read · .rest) s' R r) :
    Reads (read · .dom) ('{' :: (l.toList ++ (':' :: ' ' :: s))) (.cell l A R) r :=
  field.and_then₂ rest fun _ => Chain.readOpened_eq (c := chain) plain

/-- A type is read to the left of an arrow, and then the arrow. -/
lemma reads_dom (dom : Reads (read · .dom) s A s') (cod : Reads (read · (.cod A)) s' B r) :
    Reads (read · .whole) s B r := by
  apply dom.and_then₂ cod
  intro n eqA eqB
  show (read n .dom s >>= fun p => read n (.cod p.1) p.2) = _
  rw [eqA]
  exact eqB

lemma reads_stop (ends : Ends r) : Reads (read · (.cod A)) r A r := by
  apply Reads.of_succ
  intro n
  show readCod _ _ _ = _
  rw [readCod]
  exact ends.arrow

/-- Where an arrow follows, its codomain is read. -/
lemma reads_arrow (cod : Reads (read · .whole) s B r) :
    Reads (read · (.cod A)) (' ' :: '→' :: ' ' :: s) (.arrow A B) r := by
  apply cod.and_then
  intro n eq
  show readCod _ _ _ = _
  rw [readCod, eq]
  rfl

lemma reads_rest_empty : Reads (read · .rest) ('}' :: r) .empty r :=
  Reads.of_succ fun _ => rfl

lemma reads_rest_cell (plain : isPlainName l) (field : Reads (read · .whole) s A s')
    (rest : Reads (read · .rest) s' R r) :
    Reads (read · .rest) (',' :: ' ' :: (l.toList ++ (':' :: ' ' :: s))) (.cell l A R) r :=
  field.and_then₂ rest fun _ => Chain.readCell_eq (c := chain) plain

lemma reads_rest_end (whole : Reads (read · .whole) s A ('}' :: r)) :
    Reads (read · .rest) (' ' :: '|' :: ' ' :: s) A r :=
  whole.and_then fun _ => closedBy_eq

end Ty

/-! ## What is read of terms

One rule for each way in which a text for a term may go on. -/

namespace Term

variable {x l : String} {s s' r : List Char} {t u a b v w : Term} {A : Ty}

/-- A term that stands before the text ends there. -/
structure Ends (r : List Char) : Prop where
  name : EndsName r
  label : ∀ s, r ≠ '.' :: s
  arg : ∀ s, r = ' ' :: s → ∃ s', s = '|' :: s'

/-- A term ends before a character of the notation that is no blank and no dot. -/
lemma ends_cons {c : Char} (no : isPlainChar c = false) (blank : c ≠ ' ') (dot : c ≠ '.') :
    Ends (c :: r) :=
  ⟨endsName_cons no, fun _ eq => dot (List.cons.inj eq).1,
    fun _ eq => absurd (List.cons.inj eq).1 blank⟩

lemma ends_bar : Ends (' ' :: '|' :: r) := by
  refine ⟨endsName_cons rfl, ?_, ?_⟩
  · intro s eq
    cases eq
  · intro s eq
    exact ⟨r, (List.cons.inj eq).2.symm⟩

/-- An abstraction is read from its name, its annotation and its body. -/
lemma reads_abs (plain : isPlainName x) (dom : Reads (Ty.read · .whole) s A ('.' :: ' ' :: s'))
    (body : Reads (read · .whole) s' b r) :
    Reads (read · .whole) ('λ' :: (x.toList ++ ':' :: s)) (.abs x A b) r := by
  apply dom.and_then₂ body
  intro n eqA eqB
  show readAbs _ _ _ = _
  rw [readAbs, readName_append plain (endsName_cons rfl)]
  simp [skip, eqA, eqB]

/-- A first term is read, and then its arguments. -/
lemma reads_arg (no : ∀ s', s ≠ 'λ' :: s') (fn : Reads (read · .arg) s t s')
    (args : Reads (read · (.args t)) s' u r) : Reads (read · .whole) s u r := by
  apply fn.and_then₂ args
  intro n eqF eqA
  show readWhole _ _ _ _ _ = _
  rw [readWhole, eqF]
  · exact eqA
  · exact no

lemma reads_paren (whole : Reads (read · .whole) s t (')' :: s'))
    (labels : Reads (read · (.labels t)) s' u r) : Reads (read · .arg) ('(' :: s) u r := by
  apply whole.and_then₂ labels
  intro n eqT eqL
  show readArg _ _ _ _ = _
  rw [readArg, closedBy_eq eqT]
  exact eqL

lemma reads_var (plain : isPlainName x) (ends : EndsName s)
    (labels : Reads (read · (.labels (.var x))) s u r) :
    Reads (read · .arg) (x.toList ++ s) u r := by
  apply labels.and_then
  intro n eq
  show readArg _ _ _ _ = _
  rw [readArg, readName_append plain ends]
  · exact eq
  · exact toList_append_ne plain rfl s
  · exact toList_append_ne plain rfl s

lemma reads_brace (chain : Reads (read · .opened) s t s')
    (labels : Reads (read · (.labels t)) s' u r) : Reads (read · .arg) ('{' :: s) u r := by
  apply chain.and_then₂ labels
  intro n eqT eqL
  show readArg _ _ _ _ = _
  rw [readArg, eqT]
  exact eqL

/-- A label is read, and then the others. -/
lemma reads_label (plain : isPlainName l) (ends : EndsName s)
    (labels : Reads (read · (.labels (.proj t l))) s u r) :
    Reads (read · (.labels t)) ('.' :: (l.toList ++ s)) u r := by
  apply labels.and_then
  intro n eq
  show readLabels _ _ _ = _
  rw [readLabels, readName_append plain ends]
  exact eq

lemma reads_labels_stop (no : ∀ s, r ≠ '.' :: s) : Reads (read · (.labels t)) r t r := by
  apply Reads.of_succ
  intro n
  show readLabels _ _ _ = _
  rw [readLabels]
  exact no

/-- An argument is read, and then the others. -/
lemma reads_args (no : ∀ s', s ≠ '|' :: s') (arg : Reads (read · .arg) s a s')
    (args : Reads (read · (.args (.app t a))) s' u r) :
    Reads (read · (.args t)) (' ' :: s) u r := by
  apply arg.and_then₂ args
  intro n eqA eqR
  show readArgs _ _ _ _ = _
  rw [readArgs, eqA]
  · exact eqR
  · exact no

lemma reads_args_stop (ends : Ends r) : Reads (read · (.args t)) r t r := by
  apply Reads.of_succ
  intro n
  show readArgs _ _ _ _ = _
  by_cases blank : ∃ s, r = ' ' :: s
  · obtain ⟨s, rfl⟩ := blank
    obtain ⟨s', rfl⟩ := ends.arg s rfl
    rw [readArgs]
  · have no : ∀ s, r ≠ ' ' :: s := fun s eq => blank ⟨s, eq⟩
    rw [readArgs]
    · exact fun s => no _
    · exact no

lemma reads_opened_empty : Reads (read · .opened) ('}' :: r) .empty r :=
  Reads.of_succ fun _ => rfl

lemma reads_opened_cell (plain : isPlainName l) (value : Reads (read · .whole) s v s')
    (rest : Reads (read · .rest) s' w r) :
    Reads (read · .opened) (l.toList ++ (' ' :: '=' :: ' ' :: s)) (.cell l v w) r :=
  value.and_then₂ rest fun _ => Chain.readOpened_eq (c := chain) plain

lemma reads_rest_empty : Reads (read · .rest) ('}' :: r) .empty r :=
  Reads.of_succ fun _ => rfl

lemma reads_rest_cell (plain : isPlainName l) (value : Reads (read · .whole) s v s')
    (rest : Reads (read · .rest) s' w r) :
    Reads (read · .rest) (',' :: ' ' :: (l.toList ++ (' ' :: '=' :: ' ' :: s))) (.cell l v w) r :=
  value.and_then₂ rest fun _ => Chain.readCell_eq (c := chain) plain

lemma reads_rest_end (whole : Reads (read · .whole) s t ('}' :: r)) :
    Reads (read · .rest) (' ' :: '|' :: ' ' :: s) t r :=
  whole.and_then fun _ => closedBy_eq

end Term

end RecordLambda
