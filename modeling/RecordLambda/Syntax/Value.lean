import RecordLambda.Syntax.Canonical

/-!
# Dynamic values

Constructing a node, visiting one, and asking a judgment of one are steps that may meet something
which is no node at all: a scalar, or a tuple of results. Such a value is refused with its text in
the message. It has two texts: `literal`, in which a text is quoted, and `plain`, in which it stands
as it is.
-/

namespace RecordLambda

/-- A plain value that is no syntax. -/
inductive Scalar where
  | none
  | bool (b : Bool)
  | int (i : Int)
  | text (s : String)
deriving DecidableEq

namespace Scalar

/-- The name of the kind of a scalar. -/
def kindName : Scalar → String
  | none => "NoneType"
  | bool _ => "bool"
  | int _ => "int"
  | text _ => "str"

/-- Truth values count as the numbers 0 and 1. -/
def number? : Scalar → Option Int
  | bool b => some (if b then 1 else 0)
  | int i => some i
  | _ => Option.none

/-- Equality of scalars, numbers by what they count. -/
def same (a b : Scalar) : Bool :=
  match a.number?, b.number? with
  | some i, some j => i == j
  | Option.none, Option.none => a == b
  | _, _ => false

/-- The text of a scalar, a text standing as it is. -/
def plain : Scalar → String
  | none => "None"
  | bool true => "True"
  | bool false => "False"
  | int i => toString i
  | text s => s

/-- The text of a scalar, a text being quoted. -/
def literal : Scalar → String
  | text s => Text.quote s
  | s => s.plain

end Scalar

/-- What may stand where a node is expected. -/
inductive Value where
  | scalar (s : Scalar)
  | node (n : Node)
  | tuple (vs : List Value)
deriving Inhabited

instance : Coe Node Value := ⟨.node⟩

namespace Value

/-! ## Decidable equality -/

mutual

/-- Decides whether two values are the same. -/
def decEq : (v w : Value) → Decidable (v = w)
  | scalar a, scalar b =>
    if h : a = b then isTrue (congrArg scalar h) else isFalse fun e => h (scalar.inj e)
  | node m, node n =>
    if h : m = n then isTrue (congrArg node h) else isFalse fun e => h (node.inj e)
  | tuple vs, tuple ws =>
    match decEqs vs ws with
    | isTrue h => isTrue (congrArg tuple h)
    | isFalse h => isFalse fun e => h (tuple.inj e)
  | scalar _, node _ | scalar _, tuple _ | node _, scalar _ | node _, tuple _
  | tuple _, scalar _ | tuple _, node _ => isFalse nofun

/-- Decides whether two lists of values are the same. -/
def decEqs : (vs ws : List Value) → Decidable (vs = ws)
  | [], [] => isTrue rfl
  | [], _ :: _ | _ :: _, [] => isFalse nofun
  | v :: vs, w :: ws =>
    match decEq v w, decEqs vs ws with
    | isTrue h, isTrue hs => isTrue (by rw [h, hs])
    | isFalse h, _ => isFalse fun e => h (List.cons.inj e).1
    | _, isFalse hs => isFalse fun e => hs (List.cons.inj e).2

end

instance : DecidableEq Value := decEq

/-! ## Views -/

/-- The name of the kind of a value; for a node, of its form. -/
def kindName : Value → String
  | scalar s => s.kindName
  | node n => n.form.name
  | tuple _ => "tuple"

/-- The number of nodes. A value that is no node counts as one. -/
def size : Value → Nat
  | node n => n.size
  | _ => 1

/-- The node, if the value is one. -/
def node? : Value → Option Node
  | node n => some n
  | _ => none

/-- The type, if the value is one. -/
def ty? (v : Value) : Option Ty :=
  v.node?.bind Node.ty?

/-- The term, if the value is one. -/
def term? (v : Value) : Option Term :=
  v.node?.bind Node.term?

/-! ## Texts -/

mutual

/-- The text of a value: canonical for a node, quoted for a text, in parentheses for a tuple. -/
def literal : Value → String
  | scalar s => s.literal
  | node n => n.canonical
  | tuple [v] => "(" ++ v.literal ++ ",)"
  | tuple vs => "(" ++ Text.commaSep (literals vs) ++ ")"

/-- The texts of several values. -/
def literals : List Value → List String
  | [] => []
  | v :: vs => v.literal :: literals vs

end

/-- The text of a value, a text standing as it is. -/
def plain : Value → String
  | scalar s => s.plain
  | v => v.literal

/-! ## Sums and equality -/

mutual

/-- The sum of the numbers in a value, those inside tuples included. -/
def total : Value → Int
  | scalar s => s.number?.getD 0
  | node _ => 0
  | tuple vs => totals vs

/-- The sum of the numbers in several values. -/
def totals : List Value → Int
  | [] => 0
  | v :: vs => v.total + totals vs

end

mutual

/-- Equality of values: scalars as scalars, nodes by their structure, tuples item by item. -/
def same : Value → Value → Bool
  | scalar a, scalar b => a.same b
  | node m, node n => m == n
  | tuple vs, tuple ws => allSame vs ws
  | _, _ => false

/-- Equality of two lists of values, item by item. -/
def allSame : List Value → List Value → Bool
  | [], [] => true
  | v :: vs, w :: ws => v.same w && allSame vs ws
  | _, _ => false

end

end Value

end RecordLambda
