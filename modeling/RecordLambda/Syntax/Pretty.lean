import RecordLambda.Syntax.Fault

/-!
# Conventional notation

Arrows associate to the right and application to the left; an abstraction extends as far to the
right as it can. A record lists its cells head to tail between braces, and a chain that does not end
in the empty record shows its end behind a bar. Parentheses stand only where these rules ask for
them.

A hole has no notation: the first hole of a node, from left to right, is what keeps the node from
being written.
-/

namespace RecordLambda

/-- Where a piece of syntax stands: by itself, or as the rest of a chain of which a cell is already
written. -/
inductive Place where
  | alone
  | rest

/-- The end of a chain stands behind a bar. -/
def Place.wrap : Place → String → String
  | alone, s => s
  | rest, s => " | " ++ s ++ "\x7d"

/-- What is written before a cell. -/
def Place.opener : Place → String
  | alone => "\x7b"
  | rest => ", "

/-- What is written for the empty record. -/
def Place.closed : Place → String
  | alone => "\x7b\x7d"
  | rest => "\x7d"

/-- Parentheses, if they are needed. -/
def parenIf (needed : Bool) (s : String) : String :=
  if needed then "(" ++ s ++ ")" else s

/-- The notation of a type at a place. -/
def Ty.write (p : Place) : Ty → String
  | .base x => p.wrap x
  | .arrow A B => p.wrap (parenIf A.isArrow (A.write .alone) ++ " → " ++ B.write .alone)
  | .empty => p.closed
  | .cell l A R => p.opener ++ l ++ ": " ++ A.write .alone ++ R.write .rest
  | .hole => p.wrap "_"

/-- An abstraction. -/
def Term.isAbs : Term → Bool
  | .abs .. => true
  | _ => false

/-- An application or an abstraction: what needs parentheses as an argument and before a
projection. -/
def Term.isLoose : Term → Bool
  | .app .. | .abs .. => true
  | _ => false

/-- The notation of a term at a place. -/
def Term.write (p : Place) : Term → String
  | .var x => p.wrap x
  | .app f a =>
    p.wrap (parenIf f.isAbs (f.write .alone) ++ " " ++ parenIf a.isLoose (a.write .alone))
  | .abs x A b => p.wrap ("λ" ++ x ++ ":" ++ A.write .alone ++ ". " ++ b.write .alone)
  | .proj r l => p.wrap (parenIf r.isLoose (r.write .alone) ++ "." ++ l)
  | .empty => p.closed
  | .cell l v r => p.opener ++ l ++ " = " ++ v.write .alone ++ r.write .rest
  | .hole => p.wrap "_"

/-- The notation of a type; a hole in it is shown as a blank. -/
def Ty.text (T : Ty) : String := T.write .alone

/-- The notation of a term; a hole in it is shown as a blank. -/
def Term.text (t : Term) : String := t.write .alone

/-! ## Holes -/

/-- The form of the first hole in a type. -/
def Ty.firstHole? : Ty → Option Form
  | .base _ | .empty => none
  | .arrow A B => A.firstHole?.or B.firstHole?
  | .cell _ A R => A.firstHole?.or R.firstHole?
  | .hole => some .ty

/-- The form of the first hole in a term. -/
def Term.firstHole? : Term → Option Form
  | .var _ | .empty => none
  | .app f a => f.firstHole?.or a.firstHole?
  | .abs _ A b => A.firstHole?.or b.firstHole?
  | .proj r _ => r.firstHole?
  | .cell _ v r => v.firstHole?.or r.firstHole?
  | .hole => some .term

/-- The types in which no hole is met are the concrete ones. -/
theorem Ty.firstHole?_eq_none_iff (T : Ty) : T.firstHole? = none ↔ T.concrete = true := by
  induction T <;> simp_all [firstHole?, concrete]

/-- The terms in which no hole is met are the concrete ones. -/
theorem Term.firstHole?_eq_none_iff (t : Term) : t.firstHole? = none ↔ t.concrete = true := by
  induction t <;> simp_all [firstHole?, concrete, Ty.firstHole?_eq_none_iff]

/-! ## Notation of concrete syntax -/

/-- The notation of a type. -/
def Ty.pretty (T : Ty) : Except Fault String :=
  match T.firstHole? with
  | some f => .error (.unwritable f)
  | none => .ok T.text

/-- The notation of a term. -/
def Term.pretty (t : Term) : Except Fault String :=
  match t.firstHole? with
  | some f => .error (.unwritable f)
  | none => .ok t.text

/-- The notation of a node. -/
def Node.pretty : Node → Except Fault String
  | .ty T => T.pretty
  | .term t => t.pretty
  | .hole => .error (.unwritable .node)

/-- The notation of a value, which has to be a node. -/
def Value.pretty : Value → Except Fault String
  | .node n => n.pretty
  | v => .error (.notSyntax v)

/-- The text of a value where it stands as it is; a node is written in the usual notation. -/
def Value.display : Value → Except Fault String
  | .node n => n.pretty
  | v => .ok v.plain

end RecordLambda
