import MethodGroups.Ty.Basic

/-!
# Substitution of type parameters

A substitution lists type parameters with their images.  Parameters are looked
up by key, so the spelling of a mention is irrelevant, and the first entry of a
key is the one that counts.
-/

namespace MethodGroups

/-- Type parameters with the types that replace them. -/
abbrev Subst := List (TyParam × Ty)

namespace Subst

/-- The image of a type parameter, if the substitution has one. -/
def image? (subst : Subst) (param : TyParam) : Option Ty :=
  (subst.find? fun entry => entry.1.key = param.key).map Prod.snd

/-- Send a parameter to a type, whatever its image was before. -/
def insert (subst : Subst) (param : TyParam) (image : Ty) : Subst :=
  (param, image) :: subst

@[simp] theorem image?_nil (param : TyParam) : image? [] param = none := rfl

theorem image?_insert (subst : Subst) (param query : TyParam) (image : Ty) :
    (subst.insert param image).image? query =
      if param.key = query.key then some image else subst.image? query := by
  by_cases same : param.key = query.key <;> simp [insert, image?, same]

end Subst

namespace Ty

mutual

/-- Replace every type parameter that has an image, heads of applications
included. -/
def subst (substitution : Subst) : Ty → Ty
  | .var v => .var v
  | .con constructor => .con constructor
  | .app head args => .app (head.subst substitution) (substList substitution args)
  | .param p => (substitution.image? p).getD (.param p)
  | .array element => .array (element.subst substitution)

/-- Apply a substitution to each type of a list. -/
def substList (substitution : Subst) : List Ty → List Ty
  | [] => []
  | ty :: rest => ty.subst substitution :: substList substitution rest

end

@[simp] theorem substList_eq_map (substitution : Subst) (types : List Ty) :
    substList substitution types = types.map (subst substitution) := by
  induction types with
  | nil => rfl
  | cons ty rest ih => simp [substList, ih]

mutual

/-- The substitution without entries changes nothing. -/
@[simp] theorem subst_nil : (ty : Ty) → ty.subst [] = ty
  | .var _ | .con _ | .param _ => rfl
  | .app head args => by rw [subst, subst_nil head, substList_nil args]
  | .array element => by rw [subst, subst_nil element]

/-- The substitution without entries changes no type of a list. -/
theorem substList_nil : (types : List Ty) → substList [] types = types
  | [] => rfl
  | ty :: rest => by rw [substList, subst_nil ty, substList_nil rest]

end

end Ty

end MethodGroups
