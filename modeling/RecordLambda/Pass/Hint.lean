import RecordLambda.Syntax.Form

/-!
# Hints

A hint says for which forms a handler is meant. Hints are joined in two ways: a `union` is taken
apart into its members, and an `either` is not, unless it has become part of a union. Joining keeps
hints in order: alternatives of alternatives are flattened, repeated ones are left out, and a join
of one thing is that thing. Remarks on a hint are taken off before it is read, but on a member of a
union only when names are looked up.
-/

namespace RecordLambda

/-- A hint at the forms that a handler is for. -/
inductive Hint where
  | form (f : Form)
  /-- No node at all. -/
  | nothing
  /-- Any of several. -/
  | union (hs : List Hint)
  /-- Any of several, written in the way that is taken apart only inside a union. -/
  | either (hs : List Hint)
  /-- A hint with a remark. -/
  | remarked (h : Hint)
  /-- A name to be looked up. -/
  | named (s : String)

namespace Hint

mutual

/-- Whether two hints mean the same. The order of alternatives, and how they are written, does not
count. -/
def same : Hint → Hint → Bool
  | form f, form g => f == g
  | nothing, nothing => true
  | named s, named s' => s == s'
  | remarked h, remarked h' => h.same h'
  | union hs, union hs' | union hs, either hs' | either hs, union hs' | either hs, either hs' =>
    hs.length == hs'.length && allIn hs hs'
  | _, _ => false

/-- Whether all of some hints are among others. -/
def allIn : List Hint → List Hint → Bool
  | [], _ => true
  | h :: hs, others => others.any (fun h' => h.same h') && allIn hs others

end

/-! ## Joining -/

/-- What a hint contributes to a union. -/
def members : Hint → List Hint
  | union hs | either hs => hs
  | h => [h]

/-- The first of each group of hints that mean the same. -/
def distinct (hs : List Hint) : List Hint :=
  hs.foldl (fun kept h => if kept.any (·.same h) then kept else kept ++ [h]) []

/-- Joins the members of some hints by `join`, unless there is just one. -/
def joinBy (join : List Hint → Hint) (hs : List Hint) : Hint :=
  match distinct (hs.flatMap members) with
  | [h] => h
  | hs => join hs

/-- Whether a hint makes a union of what it is joined with. -/
def makesUnion : Hint → Bool
  | union _ | remarked _ => true
  | _ => false

/-- Joins two hints in the way that is not taken apart. -/
def orElse (h h' : Hint) : Hint :=
  joinBy (if h.makesUnion || h'.makesUnion then union else either) [h, h']

/-- Joins some hints in the way that is not taken apart, from left to right. -/
def joinEither : List Hint → Hint
  | [] => either []
  | h :: hs => hs.foldl orElse h

mutual

/-- Puts a hint in order from the inside out, with `name` for the names and `remark` for what stands
under a remark. -/
def arrange (name : String → Hint) (remark : Hint → Hint) : Hint → Hint
  | form f => form f
  | nothing => nothing
  | union hs => joinBy union (arrangeAll name remark hs)
  | either hs => joinEither (arrangeAll name remark hs)
  | remarked h => remark (h.arrange name remark)
  | named s => name s

/-- Puts some hints in order. -/
def arrangeAll (name : String → Hint) (remark : Hint → Hint) : List Hint → List Hint
  | [] => []
  | h :: hs => h.arrange name remark :: arrangeAll name remark hs

end

/-- The hint in order, with its names and remarks. -/
def plain (h : Hint) : Hint := h.arrange named remarked

/-- The hint with its names looked up. A name without a form stays. -/
def lookedUp (scope : String → Option Form) (h : Hint) : Hint :=
  h.arrange (fun s => ((scope s).map form).getD (named s)) remarked

/-- The hint without any remarks. -/
def stripped (h : Hint) : Hint := h.arrange named id

/-! ## Reading -/

mutual

/-- Whether all names in a hint can be looked up. -/
def resolves (scope : String → Option Form) : Hint → Bool
  | form _ | nothing => true
  | union hs | either hs => allResolve scope hs
  | remarked h => h.resolves scope
  | named s => (scope s).isSome

/-- Whether all names in several hints can be looked up. -/
def allResolve (scope : String → Option Form) : List Hint → Bool
  | [] => true
  | h :: hs => h.resolves scope && allResolve scope hs

end

/-- Whether a hint is nothing but the absence of a node. -/
def isNothing : Hint → Bool
  | nothing => true
  | either [h] => h.isNothing
  | _ => false

/-- The form, if the hint is one. -/
def form? : Hint → Option Form
  | form f => some f
  | _ => none

/-- The forms that a hint in order gives: those of the members of a union, under remarks too. -/
def read : Hint → List Form
  | remarked h => h.read
  | union hs => hs.filterMap form?
  | h => h.form?.toList

/-- The forms in a hint. Only if names are looked up are remarks taken off everywhere. -/
def forms (scope : Option (String → Option Form)) (h : Hint) : List Form :=
  match scope with
  | none => h.plain.read
  | some scope => (h.plain.lookedUp scope).stripped.read

end Hint

end RecordLambda
