import MethodGroups.Ty.Basic

/-!
# Inference variables of a type

The variables that occur in a type, the types that replace them, and the size of
a type, which bounds how long two types can be taken apart.
-/

namespace MethodGroups.Ty

mutual

/-- The inference variables of a type, from left to right, with repetitions. -/
def vars : Ty → List TyVar
  | .var v => [v]
  | .con _ | .param _ => []
  | .app head args => head.vars ++ varsList args
  | .array element => element.vars

/-- The inference variables of a list of types, from left to right. -/
def varsList : List Ty → List TyVar
  | [] => []
  | ty :: rest => ty.vars ++ varsList rest

end

mutual

/-- The number of constructors in a type. -/
def size : Ty → Nat
  | .var _ | .con _ | .param _ => 1
  | .app head args => 1 + head.size + sizeList args
  | .array element => 1 + element.size

/-- The total size of a list of types. -/
def sizeList : List Ty → Nat
  | [] => 0
  | ty :: rest => ty.size + sizeList rest

end

mutual

/-- Replace every inference variable by the type assigned to it. -/
def assign (assignment : TyVar → Ty) : Ty → Ty
  | .var v => assignment v
  | .con constructor => .con constructor
  | .app head args => .app (head.assign assignment) (assignList assignment args)
  | .param p => .param p
  | .array element => .array (element.assign assignment)

/-- Replace the inference variables of each type of a list. -/
def assignList (assignment : TyVar → Ty) : List Ty → List Ty
  | [] => []
  | ty :: rest => ty.assign assignment :: assignList assignment rest

end

/-- Replace one inference variable by a type and keep all others. -/
def replace (ty : Ty) (target : TyVar) (image : Ty) : Ty :=
  ty.assign fun v => if v = target then image else .var v

theorem size_pos (ty : Ty) : 0 < ty.size := by
  cases ty <;> simp only [size] <;> omega

@[simp] theorem varsList_eq_flatMap (types : List Ty) :
    varsList types = types.flatMap vars := by
  induction types with
  | nil => rfl
  | cons ty rest ih => simp [varsList, ih]

@[simp] theorem assignList_eq_map (assignment : TyVar → Ty) (types : List Ty) :
    assignList assignment types = types.map (assign assignment) := by
  induction types with
  | nil => rfl
  | cons ty rest ih => simp [assignList, ih]

mutual

/-- Assigning each variable to itself changes nothing. -/
@[simp] theorem assign_var : (ty : Ty) → ty.assign .var = ty
  | .var _ | .con _ | .param _ => rfl
  | .app head args => by rw [assign, assign_var head, assignList_var args]
  | .array element => by rw [assign, assign_var element]

/-- Assigning each variable to itself changes no type of a list. -/
theorem assignList_var : (types : List Ty) → assignList .var types = types
  | [] => rfl
  | ty :: rest => by rw [assignList, assign_var ty, assignList_var rest]

end

end MethodGroups.Ty
