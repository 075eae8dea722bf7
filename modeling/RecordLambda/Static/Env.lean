import RecordLambda.OrderedMap
import RecordLambda.Syntax.Build
import RecordLambda.Syntax.Pretty

/-!
# Typing contexts

A context gives types to variables. It keeps the order in which the names came, which shows in its
text and nowhere else. Nothing is asked of the types: a context may declare one that is not well
formed.
-/

namespace RecordLambda

/-- A typing context. -/
abbrev Env := OrderedMap String Ty

/-- A name bound to something that is no type. -/
structure BindingError where
  name : String
  got : Value

/-- What is said about a refused binding. -/
def BindingError.message (e : BindingError) : String :=
  "Binding for " ++ e.name ++ " must be a Type, got " ++ e.got.literal

namespace Env

/-- Binds a name to a value, which has to be a type. -/
def bind (Γ : Env) (x : String) (v : Value) : Except BindingError Env :=
  match v.ty? with
  | some T => .ok (Γ.insert x T)
  | none => .error ⟨x, v⟩

/-- The context of a list of bindings. Of several bindings of one name the last counts, and only
what counts is checked. -/
def ofBindings (bs : List (String × Value)) : Except BindingError Env :=
  (OrderedMap.ofList bs).entries.foldlM (fun Γ (x, v) => bind Γ x v) (∅ : Env)

/-- The text of a context. -/
def pretty (Γ : Env) : Except Fault String := do
  let bindings ← Γ.entries.mapM fun (x, T) => do return x ++ ": " ++ (← T.pretty)
  return "TypeEnv(\x7b" ++ Text.commaSep bindings ++ "\x7d)"

end Env

end RecordLambda
