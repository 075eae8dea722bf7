import RecordLambda.Pass.Context
import RecordLambda.Static.Typing

/-!
# Scripts

What a handler does with a node is a script: it visits nodes one after the other, each visit
depending on the results of those before, and ends in a value or in an error. Scripts depend on
nothing but the node and these results. In this nodes count only by what they are made of: two that
are built alike are one node, and no script can tell them apart. A pass may also be run on something
that is no node; then there is nothing to visit below it.
-/

namespace RecordLambda

/-- Why a pass has no result. -/
inductive PassError where
  | build (e : BuildError)
  | typing (e : TypingError)
  | eval (e : EvalError)
  | fault (f : Fault)
  /-- A pass requires a kind of plain objects. -/
  | plainKind (pass : String) (k : Kind)
  /-- Objects that a pass requires are not there. -/
  | unmet (pass : String) (ks : List Kind)
  /-- An analysis came to something that is no analysis object. -/
  | noObject (pass : String) (got : String)
  /-- A transform came to something that is no node. -/
  | noNode (pass : String)
  /-- An analysis was about to note a node that was already noted. -/
  | noted
  /-- Nothing says how an analysis is run. -/
  | noRun
  /-- Something that is no pass was to be run. -/
  | notAPass
  /-- The visits went deeper than they were followed. -/
  | tooDeep

/-- What is said about a failed pass, where `shown` is the full name of a kind. Where another part
of the library speaks of its own errors, nothing is added. -/
def PassError.message (shown : Kind → String) : PassError → String
  | plainKind pass k =>
    "Pass " ++ pass ++ " requires " ++ shown k ++ " which is not a subclass of AnalysisObject"
  | unmet pass ks => "Pass " ++ pass ++ " requires " ++ Text.commaSep (ks.map Kind.name)
  | noObject pass got => "Analysis pass " ++ pass ++ " did not return an AnalysisObject, " ++ got
  | noNode pass => "Transform pass " ++ pass ++ " did not return an IR node"
  | _ => ""

/-- What is done with a node, which is taken up to structural equality. -/
inductive Script where
  | done (v : Value)
  | fail (e : PassError)
  /-- Visits a node and goes on with the result. If the visit fails there is none, and the script
  does not go on but fails as well; it cannot catch the error. -/
  | visit (n : Node) (k : Value → Script)

namespace Script

/-- Visits some nodes in order and goes on with the results. -/
def visitAll : List Node → (List Value → Script) → Script
  | [], k => k []
  | n :: ns, k => .visit n fun v => visitAll ns fun vs => k (v :: vs)

/-- Visits the children of a value, which has to be a node, and goes on with the results. -/
def visitChildren (v : Value) (k : Node → List Value → Script) : Script :=
  match v with
  | .node n => visitAll n.children (k n)
  | v => .fail (.fault (.childless v))

/-- The results of visiting the children, as a tuple. -/
def children (v : Value) : Script :=
  visitChildren v fun _ vs => .done (.tuple vs)

/-- The node with its fields updated and its children replaced by the results of visiting them. -/
def rebuild (v : Value) (update : String → String) : Script :=
  visitChildren v fun n vs =>
    match n.replace (n.fields.map fun (k, old) => (k, update old)) vs with
    | .ok (m, _) => .done (.node m)
    | .error e => .fail (.build e)

end Script

/-- Some simple things to do with a node, or with what stands in its place. -/
inductive Action where
  /-- Gives a fixed value. -/
  | const (v : Value)
  /-- Adds a number to all numbers in the results of the children. -/
  | sum (n : Int)
  /-- Gives the results of the children. -/
  | children
  /-- Gives the node. -/
  | self
  /-- Rebuilds the node from the results of the children. -/
  | rebuild
  /-- Rebuilds the node, with a text behind each of its fields. -/
  | suffix (s : String)

/-- The script of an action. -/
def Action.script : Action → Value → Script
  | const c, _ => .done c
  | sum i, v => Script.visitChildren v fun _ vs => .done (.scalar (.int (i + Value.totals vs)))
  | children, v => Script.children v
  | self, v => .done v
  | rebuild, v => Script.rebuild v id
  | suffix s, v => Script.rebuild v (· ++ s)

end RecordLambda
