import RecordLambda.Proofs.Syntax.Read

/-!
# The notation is unambiguous

Concrete syntax with plain names is read back from its notation: whatever follows, as long as it
does not go on with the type or the term, the reader takes off just what was written. So two types
with the same notation are the same, and so are two terms.

The induction has to say more than that. What is written for the head of an application is not read
by itself, since the arguments behind it are read in the same go; so the statement for a head,
`Term.ReadAsFn`, is that reading comes down to reading the arguments behind it. The same holds of
what stands before a label, `Term.ReadAsArg`.
-/

namespace RecordLambda

/-- The characters of a text in brackets, if these are needed. -/
lemma toList_parenIf (needed : Bool) (s : String) :
    (parenIf needed s).toList = if needed then '(' :: (s.toList ++ [')']) else s.toList := by
  cases needed with
  | false => rfl
  | true => simp [parenIf]

/-- What does not start with `c` does not start with it in brackets either. -/
lemma parenIf_append_ne {needed : Bool} {w : String} {c : Char} (paren : c ≠ '(')
    (first : needed = false → ∀ r s, w.toList ++ r ≠ c :: s) (r s : List Char) :
    (parenIf needed w).toList ++ r ≠ c :: s := by
  rw [toList_parenIf]
  cases needed with
  | false => exact first rfl r s
  | true => exact fun eq => paren (List.cons.inj eq).1.symm

/-- The characters of what ends a chain. -/
lemma toList_wrap (w : String) :
    (Place.rest.wrap w).toList = ' ' :: '|' :: ' ' :: (w.toList ++ ['}']) := by
  simp [Place.wrap]

/-! ## Types -/

namespace Ty

variable {T A B R : Ty} {x l : String} {r : List Char}

/-- All names of ground types and all labels are plain. -/
def plain : Ty → Bool
  | .base x => isPlainName x
  | .arrow A B => A.plain && B.plain
  | .cell l A R => isPlainName l && (A.plain && R.plain)
  | .empty | .hole => true

lemma plain_arrow : (arrow A B).plain ↔ A.plain ∧ B.plain := Bool.and_eq_true_iff

lemma plain_cell : (cell l A R).plain ↔ isPlainName l ∧ A.plain ∧ R.plain :=
  Bool.and_eq_true_iff.trans (and_congr_right' Bool.and_eq_true_iff)

/-- The characters of the notation at a place. -/
def chars (p : Place) (T : Ty) : List Char := (T.write p).toList

lemma chars_arrow :
    (arrow A B).chars .alone =
      (parenIf A.isArrow (A.write .alone)).toList ++ ' ' :: '→' :: ' ' :: B.chars .alone := by
  show (parenIf A.isArrow (A.write .alone) ++ " → " ++ B.write .alone).toList = _
  simp [chars]

/-- How a chain of cells begins. -/
lemma chars_cell :
    (cell l A R).chars .alone =
      '{' :: (l.toList ++ ':' :: ' ' :: (A.chars .alone ++ R.chars .rest)) := by
  show ("\x7b" ++ l ++ ": " ++ A.write .alone ++ R.write .rest).toList = _
  simp [chars]

/-- How a chain of cells goes on. -/
lemma chars_rest_cell :
    (cell l A R).chars .rest =
      ',' :: ' ' :: (l.toList ++ ':' :: ' ' :: (A.chars .alone ++ R.chars .rest)) := by
  show (", " ++ l ++ ": " ++ A.write .alone ++ R.write .rest).toList = _
  simp [chars]

/-- How a chain ends that does not end in the empty record type. -/
lemma chars_rest_end (no : T.isRecord = false) :
    T.chars .rest = ' ' :: '|' :: ' ' :: (T.chars .alone ++ ['}']) := by
  cases T with
  | empty => cases no
  | cell => cases no
  | _ => exact toList_wrap _

/-- What is written for the rest of a chain does not go on with the type before it. -/
lemma ends_chars_rest : Ends (R.chars .rest ++ r) := by
  cases rec : R.isRecord with
  | false =>
    rw [chars_rest_end rec]
    exact ends_bar
  | true =>
    cases R with
    | empty => exact ends_cons rfl (by decide)
    | cell =>
      rw [chars_rest_cell]
      exact ends_cons rfl (by decide)
    | _ => cases rec

/-- To the left of an arrow the notation of a type is read as this type. -/
def ReadAsDom (T : Ty) : Prop :=
  ∀ r, EndsName r → Reads (read · .dom) (T.chars .alone ++ r) T r

/-- By itself the notation of a type is read as this type. -/
def ReadAsWhole (T : Ty) : Prop :=
  ∀ r, Ends r → Reads (read · .whole) (T.chars .alone ++ r) T r

/-- What is read to the left of an arrow is read where no arrow follows. -/
lemma ReadAsDom.whole (dom : T.ReadAsDom) : T.ReadAsWhole :=
  fun r ends => reads_dom (dom r ends.name) (reads_stop ends)

/-- The notation of a type is read as this type, wherever it stands. -/
structure Readable (T : Ty) : Prop where
  dom : T.isArrow = false → T.ReadAsDom
  whole : T.ReadAsWhole
  rest : ∀ r, Reads (read · .rest) (T.chars .rest ++ r) T r

namespace Readable

/-- What is no record type is read at the end of a chain as it is read alone. -/
lemma of_whole (no : T.isRecord = false) (dom : T.isArrow = false → T.ReadAsDom)
    (whole : T.ReadAsWhole) : T.Readable := by
  refine ⟨dom, whole, ?_⟩
  intro r
  have whole := whole ('}' :: r) (ends_cons rfl (by decide))
  rw [chars_rest_end no]
  simpa using reads_rest_end whole

/-- A type to the left of an arrow, in parentheses if it needs them. -/
lemma reads_dom (readable : A.Readable) (ends : EndsName r) :
    Reads (read · .dom) ((parenIf A.isArrow (A.write .alone)).toList ++ r) A r := by
  rw [toList_parenIf]
  cases arrow : A.isArrow with
  | false => exact readable.dom arrow r ends
  | true =>
    have whole := readable.whole (')' :: r) (ends_cons rfl (by decide))
    simpa [chars] using reads_paren whole

end Readable

/-- By induction on the type, what is written can be read at every place. -/
lemma readable (con : T.concrete) (pl : T.plain) : T.Readable := by
  induction T with
  | base x =>
    have dom : (base x).ReadAsDom := fun r => reads_base pl
    exact .of_whole rfl (fun _ => dom) dom.whole
  | arrow A B ihA ihB =>
    obtain ⟨conA, conB⟩ := concrete_arrow.1 con
    obtain ⟨plA, plB⟩ := plain_arrow.1 pl
    apply Readable.of_whole rfl
    · intro no
      cases no
    · intro r ends
      have dom := (ihA conA plA).reads_dom (r := ' ' :: '→' :: ' ' :: (B.chars .alone ++ r))
        (endsName_cons rfl)
      have cod := (ihB conB plB).whole r ends
      rw [chars_arrow, List.append_assoc]
      exact reads_dom dom (reads_arrow cod)
  | empty =>
    have dom : empty.ReadAsDom := fun r _ => reads_empty
    exact ⟨fun _ => dom, dom.whole, fun r => reads_rest_empty⟩
  | cell l A R ihA ihR =>
    obtain ⟨conA, conR⟩ := concrete_cell.1 con
    obtain ⟨plL, plA, plR⟩ := plain_cell.1 pl
    have field : ∀ r, Reads (read · .whole) (A.chars .alone ++ (R.chars .rest ++ r)) A
        (R.chars .rest ++ r) :=
      fun r => (ihA conA plA).whole _ ends_chars_rest
    have rest := (ihR conR plR).rest
    have dom : (cell l A R).ReadAsDom := by
      intro r _
      rw [chars_cell]
      simpa using reads_cell plL (field r) (rest r)
    refine ⟨fun _ => dom, dom.whole, ?_⟩
    intro r
    rw [chars_rest_cell]
    simpa using reads_rest_cell plL (field r) (rest r)
  | hole => cases con

/-- A concrete type is written. -/
lemma pretty_of_concrete (con : T.concrete) : T.pretty = .ok T.text := by
  rw [pretty, (firstHole?_eq_none_iff T).2 con]

/-- Types with the same text are the same. -/
lemma eq_of_text_eq {T U : Ty} (conT : T.concrete) (plT : T.plain) (conU : U.concrete)
    (plU : U.plain) (eq : T.text = U.text) : T = U := by
  have none : Ends [] := ⟨nofun, nofun⟩
  have readT := (readable conT plT).whole [] none
  have readU := (readable conU plU).whole [] none
  have same : T.chars .alone = U.chars .alone := congrArg String.toList eq
  rw [same] at readT
  exact readT.unique readU

end Ty

/-! ## Terms -/

namespace Term

variable {t u f a b v w : Term} {A : Ty} {x l : String} {s r : List Char} {c : Char}

/-- All variables, parameters and labels are plain, and all names in annotations. -/
def plain : Term → Bool
  | .var x => isPlainName x
  | .app f a => f.plain && a.plain
  | .abs x A b => isPlainName x && (A.plain && b.plain)
  | .proj r l => r.plain && isPlainName l
  | .cell l v r => isPlainName l && (v.plain && r.plain)
  | .empty | .hole => true

lemma plain_app : (app f a).plain ↔ f.plain ∧ a.plain := Bool.and_eq_true_iff

lemma plain_abs : (abs x A b).plain ↔ isPlainName x ∧ A.plain ∧ b.plain :=
  Bool.and_eq_true_iff.trans (and_congr_right' Bool.and_eq_true_iff)

lemma plain_proj : (proj t l).plain ↔ t.plain ∧ isPlainName l := Bool.and_eq_true_iff

lemma plain_cell : (cell l v w).plain ↔ isPlainName l ∧ v.plain ∧ w.plain :=
  Bool.and_eq_true_iff.trans (and_congr_right' Bool.and_eq_true_iff)

/-- The characters of the notation at a place. -/
def chars (p : Place) (t : Term) : List Char := (t.write p).toList

lemma chars_app :
    (app f a).chars .alone =
      (parenIf f.isAbs (f.write .alone)).toList ++
        ' ' :: (parenIf a.isLoose (a.write .alone)).toList := by
  show (parenIf f.isAbs (f.write .alone) ++ " " ++ parenIf a.isLoose (a.write .alone)).toList = _
  simp

lemma chars_abs :
    (abs x A b).chars .alone =
      'λ' :: (x.toList ++ ':' :: (A.chars .alone ++ '.' :: ' ' :: b.chars .alone)) := by
  show ("λ" ++ x ++ ":" ++ A.write .alone ++ ". " ++ b.write .alone).toList = _
  simp [chars, Ty.chars]

lemma chars_proj :
    (proj t l).chars .alone =
      (parenIf t.isLoose (t.write .alone)).toList ++ '.' :: l.toList := by
  show (parenIf t.isLoose (t.write .alone) ++ "." ++ l).toList = _
  simp

/-- How a chain of cells begins. -/
lemma chars_cell :
    (cell l v w).chars .alone =
      '{' :: (l.toList ++ ' ' :: '=' :: ' ' :: (v.chars .alone ++ w.chars .rest)) := by
  show ("\x7b" ++ l ++ " = " ++ v.write .alone ++ w.write .rest).toList = _
  simp [chars]

/-- How a chain of cells goes on. -/
lemma chars_rest_cell :
    (cell l v w).chars .rest =
      ',' :: ' ' :: (l.toList ++ ' ' :: '=' :: ' ' :: (v.chars .alone ++ w.chars .rest)) := by
  show (", " ++ l ++ " = " ++ v.write .alone ++ w.write .rest).toList = _
  simp [chars]

/-- How a chain ends that does not end in the empty record. -/
lemma chars_rest_end (no : t.isRecord = false) :
    t.chars .rest = ' ' :: '|' :: ' ' :: (t.chars .alone ++ ['}']) := by
  cases t with
  | empty => cases no
  | cell => cases no
  | _ => exact toList_wrap _

/-- What is written for the rest of a chain does not go on with the term before it. -/
lemma ends_chars_rest : Ends (t.chars .rest ++ r) := by
  cases rec : t.isRecord with
  | false =>
    rw [chars_rest_end rec]
    exact ends_bar
  | true =>
    cases t with
    | empty => exact ends_cons rfl (by decide) (by decide)
    | cell =>
      rw [chars_rest_cell]
      exact ends_cons rfl (by decide) (by decide)
    | _ => cases rec

/-- The notation of a term starts with a name, a parenthesis or a brace, unless the term is an
abstraction. -/
lemma chars_append_ne (con : t.concrete) (pl : t.plain) (no : isPlainChar c = false)
    (paren : c ≠ '(') (brace : c ≠ '{') (lambda : t.isAbs → c ≠ 'λ') (r s : List Char) :
    t.chars .alone ++ r ≠ c :: s := by
  induction t generalizing r s with
  | var x => exact toList_append_ne pl no r s
  | app f a ihf _ =>
    rw [chars_app, List.append_assoc]
    apply parenIf_append_ne paren
    intro notAbs
    apply ihf (concrete_app.1 con).1 (plain_app.1 pl).1
    intro isAbs
    rw [notAbs] at isAbs
    cases isAbs
  | abs y A b _ =>
    rw [chars_abs]
    exact fun eq => lambda rfl (List.cons.inj eq).1.symm
  | proj t l ih =>
    rw [chars_proj, List.append_assoc]
    apply parenIf_append_ne paren
    intro tight
    apply ih con (plain_proj.1 pl).1
    intro isAbs
    cases t with
    | abs => cases tight
    | _ => cases isAbs
  | empty => exact fun eq => brace (List.cons.inj eq).1.symm
  | cell l v w _ _ =>
    rw [chars_cell]
    exact fun eq => brace (List.cons.inj eq).1.symm
  | hole => cases con

/-- As an argument or before a label, the notation of a term is read before the labels that
follow. -/
def ReadAsArg (t : Term) : Prop :=
  ∀ s u r, EndsName s → Reads (read · (.labels t)) s u r →
    Reads (read · .arg) (t.chars .alone ++ s) u r

/-- As the head of an application, the notation of a term is read before the arguments that
follow. -/
def ReadAsFn (t : Term) : Prop :=
  ∀ s u r, EndsName s → (∀ s', s ≠ '.' :: s') → Reads (read · (.args t)) s u r →
    Reads (read · .whole) (t.chars .alone ++ s) u r

/-- By itself the notation of a term is read as this term. -/
def ReadAsWhole (t : Term) : Prop :=
  ∀ r, Ends r → Reads (read · .whole) (t.chars .alone ++ r) t r

/-- What is read as an argument is read as a function. -/
lemma ReadAsArg.fn (arg : t.ReadAsArg) (con : t.concrete) (pl : t.plain)
    (notAbs : t.isAbs = false) : t.ReadAsFn := by
  intro s u r ends no args
  have arg := arg s t s ends (reads_labels_stop no)
  refine reads_arg (chars_append_ne con pl rfl (by decide) (by decide) ?_ s) arg args
  intro isAbs
  rw [notAbs] at isAbs
  cases isAbs

/-- What is read as a function is read where no argument follows. -/
lemma ReadAsFn.whole (fn : t.ReadAsFn) : t.ReadAsWhole :=
  fun r ends => fn r t r ends.name ends.label (reads_args_stop ends)

/-- The notation of a term is read as this term, wherever it stands. -/
structure Readable (t : Term) : Prop where
  arg : t.isLoose = false → t.ReadAsArg
  fn : t.isAbs = false → t.ReadAsFn
  whole : t.ReadAsWhole
  rest : ∀ r, Reads (read · .rest) (t.chars .rest ++ r) t r

namespace Readable

/-- What is no record is read at the end of a chain as it is read alone. -/
lemma of_whole (no : t.isRecord = false) (arg : t.isLoose = false → t.ReadAsArg)
    (fn : t.isAbs = false → t.ReadAsFn) (whole : t.ReadAsWhole) : t.Readable := by
  refine ⟨arg, fn, whole, ?_⟩
  intro r
  have whole := whole ('}' :: r) (ends_cons rfl (by decide) (by decide))
  rw [chars_rest_end no]
  simpa using reads_rest_end whole

/-- A term in parentheses. -/
lemma reads_paren (readable : t.Readable) (labels : Reads (read · (.labels t)) s u r) :
    Reads (read · .arg) ('(' :: (t.chars .alone ++ [')']) ++ s) u r := by
  have whole := readable.whole (')' :: s) (ends_cons rfl (by decide) (by decide))
  simpa using Term.reads_paren whole labels

/-- An argument, or what stands before a label, in parentheses if it needs them. -/
lemma reads_arg (readable : t.Readable) (ends : EndsName s)
    (labels : Reads (read · (.labels t)) s u r) :
    Reads (read · .arg) ((parenIf t.isLoose (t.write .alone)).toList ++ s) u r := by
  rw [toList_parenIf]
  cases loose : t.isLoose with
  | false => exact readable.arg loose s u r ends labels
  | true => exact readable.reads_paren labels

/-- The head of an application, in parentheses if it needs them. -/
lemma reads_fn (readable : t.Readable) (ends : EndsName s) (no : ∀ s', s ≠ '.' :: s')
    (args : Reads (read · (.args t)) s u r) :
    Reads (read · .whole) ((parenIf t.isAbs (t.write .alone)).toList ++ s) u r := by
  rw [toList_parenIf]
  cases abs : t.isAbs with
  | false => exact readable.fn abs s u r ends no args
  | true =>
    have arg := readable.reads_paren (reads_labels_stop no)
    refine Term.reads_arg ?_ arg args
    intro s' eq
    cases eq

end Readable

/-- An application is read from a function and an argument. -/
lemma readAsFn_app (conA : a.concrete) (plA : a.plain) (fn : f.Readable) (arg : a.Readable) :
    (app f a).ReadAsFn := by
  intro s u r ends no args
  have first : ∀ s', (parenIf a.isLoose (a.write .alone)).toList ++ s ≠ '|' :: s' := by
    apply parenIf_append_ne (by decide)
    intro _
    exact chars_append_ne conA plA rfl (by decide) (by decide) fun _ => by decide
  have arg := arg.reads_arg ends (reads_labels_stop no)
  rw [chars_app, List.append_assoc]
  apply fn.reads_fn (endsName_cons rfl)
  · intro s' eq
    cases eq
  · -- the first argument behind `f` is `a`, and the others are those behind the application
    exact reads_args first arg args

/-- An abstraction is read from its annotation and its body. -/
lemma readAsWhole_abs (plX : isPlainName x) (dom : A.Readable) (body : b.Readable) :
    (abs x A b).ReadAsWhole := by
  intro r ends
  have body := body.whole r ends
  have dom := dom.whole ('.' :: ' ' :: (b.chars .alone ++ r)) (Ty.ends_cons rfl (by decide))
  rw [chars_abs]
  simpa using reads_abs plX dom body

/-- A projection is read from its record and its label. -/
lemma readAsArg_proj (plL : isPlainName l) (record : t.Readable) : (proj t l).ReadAsArg := by
  intro s u r ends labels
  rw [chars_proj, List.append_assoc]
  apply record.reads_arg (endsName_cons rfl)
  exact reads_label plL ends labels

/-- By induction on the term, what is written can be read at every place. -/
lemma readable (con : t.concrete) (pl : t.plain) : t.Readable := by
  induction t with
  | var x =>
    have arg : (var x).ReadAsArg := fun s u r ends => reads_var pl ends
    have fn := arg.fn con pl rfl
    exact .of_whole rfl (fun _ => arg) (fun _ => fn) fn.whole
  | app f a ihf iha =>
    obtain ⟨conF, conA⟩ := concrete_app.1 con
    obtain ⟨plF, plA⟩ := plain_app.1 pl
    have fn : (app f a).ReadAsFn := readAsFn_app conA plA (ihf conF plF) (iha conA plA)
    refine .of_whole rfl ?_ (fun _ => fn) fn.whole
    intro loose
    cases loose
  | abs x A b ih =>
    obtain ⟨conA, conB⟩ := concrete_abs.1 con
    obtain ⟨plX, plA, plB⟩ := plain_abs.1 pl
    have whole := readAsWhole_abs plX (Ty.readable conA plA) (ih conB plB)
    refine .of_whole rfl ?_ ?_ whole
    · intro loose
      cases loose
    · intro no
      cases no
  | proj t l ih =>
    obtain ⟨plT, plL⟩ := plain_proj.1 pl
    have arg : (proj t l).ReadAsArg := readAsArg_proj plL (ih con plT)
    have fn := arg.fn con pl rfl
    exact .of_whole rfl (fun _ => arg) (fun _ => fn) fn.whole
  | empty =>
    have arg : empty.ReadAsArg := fun s u r _ => reads_brace reads_opened_empty
    have fn := arg.fn con pl rfl
    exact ⟨fun _ => arg, fun _ => fn, fn.whole, fun r => reads_rest_empty⟩
  | cell l v w ihv ihw =>
    obtain ⟨conV, conW⟩ := concrete_cell.1 con
    obtain ⟨plL, plV, plW⟩ := plain_cell.1 pl
    have value : ∀ r, Reads (read · .whole) (v.chars .alone ++ (w.chars .rest ++ r)) v
        (w.chars .rest ++ r) :=
      fun r => (ihv conV plV).whole _ ends_chars_rest
    have rest := (ihw conW plW).rest
    have arg : (cell l v w).ReadAsArg := by
      intro s u r _ labels
      rw [chars_cell]
      simpa using reads_brace (reads_opened_cell plL (value s) (rest s)) labels
    have fn := arg.fn con pl rfl
    refine ⟨fun _ => arg, fun _ => fn, fn.whole, ?_⟩
    intro r
    rw [chars_rest_cell]
    simpa using reads_rest_cell plL (value r) (rest r)
  | hole => cases con

/-- A concrete term is written. -/
lemma pretty_of_concrete (con : t.concrete) : t.pretty = .ok t.text := by
  rw [pretty, (firstHole?_eq_none_iff t).2 con]

/-- Terms with the same text are the same. -/
lemma eq_of_text_eq {t u : Term} (conT : t.concrete) (plT : t.plain) (conU : u.concrete)
    (plU : u.plain) (eq : t.text = u.text) : t = u := by
  have none : Ends [] := ⟨nofun, nofun, nofun⟩
  have readT := (readable conT plT).whole [] none
  have readU := (readable conU plU).whole [] none
  have same : t.chars .alone = u.chars .alone := congrArg String.toList eq
  rw [same] at readT
  exact readT.unique readU

end Term

/-- The notation is unambiguous: if all names are plain, concrete types with the same notation are
the same, and so are concrete terms. -/
theorem pretty_unambiguous :
    (∀ T U : Ty, T.concrete → U.concrete → T.plain → U.plain → (T.pretty = U.pretty ↔ T = U)) ∧
      ∀ t u : Term, t.concrete → u.concrete → t.plain → u.plain →
        (t.pretty = u.pretty ↔ t = u) := by
  constructor
  · intro T U conT conU plT plU
    rw [Ty.pretty_of_concrete conT, Ty.pretty_of_concrete conU]
    refine ⟨fun eq => ?_, fun eq => by rw [eq]⟩
    exact Ty.eq_of_text_eq conT plT conU plU (Except.ok.inj eq)
  · intro t u conT conU plT plU
    rw [Term.pretty_of_concrete conT, Term.pretty_of_concrete conU]
    refine ⟨fun eq => ?_, fun eq => by rw [eq]⟩
    exact Term.eq_of_text_eq conT plT conU plU (Except.ok.inj eq)

/-- An abstraction extends to the right, also in a chain that ends in an application. -/
theorem pretty_unambiguous_extent :
    let f : Term := .abs "x" (.arrow (.base "A") (.base "B")) (.var "x")
    let t : Term := .cell "l" (.var "z") (.abs "x" (.arrow (.base "A") (.base "B"))
      (.app (.var "x") (.var "y")))
    let u : Term := .cell "l" (.var "z") (.app f (.var "y"))
    t.pretty = .ok "\x7bl = z | λx:A → B. x y\x7d" ∧
      u.pretty = .ok "\x7bl = z | (λx:A → B. x) y\x7d" ∧
      t.concrete ∧ u.concrete ∧ t.plain ∧ u.plain ∧ (t.pretty = u.pretty ↔ t = u) := by
  intro f t u
  have conT : t.concrete := rfl
  have conU : u.concrete := rfl
  have plT : t.plain := by decide
  have plU : u.plain := by decide
  exact ⟨rfl, rfl, conT, conU, plT, plU, pretty_unambiguous.2 t u conT conU plT plU⟩

end RecordLambda
