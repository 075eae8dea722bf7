import RecordLambda.Syntax.Form
import RecordLambda.Text.Quoted
import RecordLambda.Text.Separated

/-!
# Canonical text

The canonical text of a node spells out its form, its quoted fields and its children, so that
different nodes have different texts whatever their names hold.
-/

namespace RecordLambda

open Text

/-- A form with its fields in brackets, if it has any, and the texts of its children in
parentheses. -/
def Form.write (f : Form) (fields : List (String × String)) (children : List String) : String :=
  let bracket :=
    match fields with
    | [] => ""
    | _ => "[" ++ ",".intercalate (fields.map fun (k, v) => k ++ "=" ++ quote v) ++ "]"
  f.name ++ bracket ++ "(" ++ commaSep children ++ ")"

/-- The canonical text of a type. -/
def Ty.canonical : Ty → String
  | T@(.arrow A B) => T.form.write (Node.ty T).fields [A.canonical, B.canonical]
  | T@(.cell _ A R) => T.form.write (Node.ty T).fields [A.canonical, R.canonical]
  | T => T.form.write (Node.ty T).fields []

/-- The canonical text of a term. -/
def Term.canonical : Term → String
  | t@(.app f a) => t.form.write (Node.term t).fields [f.canonical, a.canonical]
  | t@(.abs _ A b) => t.form.write (Node.term t).fields [A.canonical, b.canonical]
  | t@(.proj r _) => t.form.write (Node.term t).fields [r.canonical]
  | t@(.cell _ v r) => t.form.write (Node.term t).fields [v.canonical, r.canonical]
  | t => t.form.write (Node.term t).fields []

/-- The canonical text of a node. -/
def Node.canonical : Node → String
  | .ty T => T.canonical
  | .term t => t.canonical
  | .hole => Form.node.write [] []

end RecordLambda
