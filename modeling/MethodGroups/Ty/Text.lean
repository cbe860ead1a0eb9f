import MethodGroups.Ty.Basic

/-!
# The text of a type

Types are shown in source syntax: constructors without their scope, arguments in
angle brackets, arrays with a trailing `[]`, and inference variables as `?n`.
-/

namespace MethodGroups.Ty

mutual

/-- The type in source syntax. -/
def text : Ty → String
  | .var v => "?" ++ toString v
  | .con constructor => constructor.name
  | .app head args => head.text ++ "<" ++ ", ".intercalate (texts args) ++ ">"
  | .param p => p.name
  | .array element => element.text ++ "[]"

/-- The text of each type of a list. -/
def texts : List Ty → List String
  | [] => []
  | ty :: rest => ty.text :: texts rest

end

@[simp] theorem texts_eq_map (types : List Ty) : texts types = types.map text := by
  induction types with
  | nil => rfl
  | cons ty rest ih => simp [texts, ih]

end MethodGroups.Ty
