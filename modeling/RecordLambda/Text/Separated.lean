/-!
# Separated texts
-/

namespace RecordLambda.Text

/-- Texts separated by a comma and a space. -/
def commaSep : List String → String
  | [] => ""
  | [s] => s
  | s :: rest => s ++ ", " ++ commaSep rest

end RecordLambda.Text
