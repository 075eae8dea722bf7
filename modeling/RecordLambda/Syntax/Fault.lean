import RecordLambda.Syntax.Value

/-!
# Faults

The judgments are defined on types or on terms, the notation on concrete syntax, and only nodes have
children. A fault says that one of these was asked of a value on which it is not defined.
-/

namespace RecordLambda

/-- Asking of a value what is not defined on values of its kind. -/
inductive Fault where
  /-- Well-formedness asked of something that is no type. -/
  | notType (got : Value)
  /-- A step asked of something that is no term. -/
  | notTerm (got : Value)
  /-- A hole that was to be written. -/
  | unwritable (form : Form)
  /-- Something that is no syntax was to be written. -/
  | notSyntax (got : Value)
  /-- Children asked of something that is no node. -/
  | childless (got : Value)
deriving DecidableEq

/-- What is said about a fault. -/
def Fault.message : Fault → String
  | notType got => "Well-formedness is defined on types, got " ++ got.literal
  | notTerm got => "Only terms can step, got " ++ got.literal
  | unwritable form => form.name ++ " not implemented in PrettyPrinterPass"
  | notSyntax got => got.kindName ++ " not implemented in PrettyPrinterPass"
  | childless got => "'" ++ got.kindName ++ "' object has no attribute '_children'"

end RecordLambda
