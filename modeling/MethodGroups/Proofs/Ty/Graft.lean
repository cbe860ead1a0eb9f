import MethodGroups.Ty.Subst
import MethodGroups.Ty.Variables
import Mathlib.Data.List.Basic

/-!
# Replacing the leaves of a type

Substitution, assignment and the erasure of spellings keep the constructors of a type
and put other types in the place of its inference variables and type parameters.  So
they are instances of one operation, whose laws are proved here and carry over to all
three: two replacements in a row are one, and only the variables and parameters that
occur matter.
-/

namespace MethodGroups.Ty

/-- Induction over types, with one hypothesis for each argument of an
application. -/
theorem induction {motive : Ty → Prop}
    (var : ∀ v, motive (.var v))
    (con : ∀ constructor, motive (.con constructor))
    (app : ∀ head args, motive head → (∀ arg ∈ args, motive arg) → motive (.app head args))
    (param : ∀ p, motive (.param p))
    (array : ∀ element, motive element → motive (.array element)) :
    ∀ ty, motive ty
  | .var v => var v
  | .con constructor => con constructor
  | .app head args =>
      app head args (induction var con app param array head)
        (fun arg _ => induction var con app param array arg)
  | .param p => param p
  | .array element => array element (induction var con app param array element)

mutual

/-- The mentions of type parameters in a type, from left to right. -/
def params : Ty → List TyParam
  | .var _ | .con _ => []
  | .app head args => head.params ++ paramsList args
  | .param p => [p]
  | .array element => element.params

/-- The mentions of type parameters in a list of types. -/
def paramsList : List Ty → List TyParam
  | [] => []
  | ty :: rest => ty.params ++ paramsList rest

end

@[simp] theorem paramsList_eq_flatMap (types : List Ty) :
    paramsList types = types.flatMap params := by
  induction types with
  | nil => rfl
  | cons ty rest ih => simp [paramsList, ih]

mutual

/-- Put types in the place of inference variables and type parameters. -/
def graft (onVar : TyVar → Ty) (onParam : TyParam → Ty) : Ty → Ty
  | .var v => onVar v
  | .con constructor => .con constructor
  | .app head args => .app (head.graft onVar onParam) (graftList onVar onParam args)
  | .param p => onParam p
  | .array element => .array (element.graft onVar onParam)

/-- Put types in the place of the leaves of each type of a list. -/
def graftList (onVar : TyVar → Ty) (onParam : TyParam → Ty) : List Ty → List Ty
  | [] => []
  | ty :: rest => ty.graft onVar onParam :: graftList onVar onParam rest

end

@[simp] theorem graftList_eq_map (onVar : TyVar → Ty) (onParam : TyParam → Ty)
    (types : List Ty) : graftList onVar onParam types = types.map (graft onVar onParam) := by
  induction types with
  | nil => rfl
  | cons ty rest ih => simp [graftList, ih]

/-! ## Laws -/

theorem graft_congr {onVar onVar' : TyVar → Ty} {onParam onParam' : TyParam → Ty} {ty : Ty}
    (vars : ∀ v ∈ ty.vars, onVar v = onVar' v)
    (params : ∀ p ∈ ty.params, onParam p = onParam' p) :
    ty.graft onVar onParam = ty.graft onVar' onParam' := by
  induction ty using Ty.induction with
  | var v => exact vars v (List.mem_singleton_self v)
  | con constructor => rfl
  | app head args headIH argsIH =>
      simp only [Ty.vars, varsList_eq_flatMap, List.mem_append, List.mem_flatMap] at vars
      simp only [Ty.params, paramsList_eq_flatMap, List.mem_append, List.mem_flatMap] at params
      simp only [graft, graftList_eq_map]
      rw [headIH (fun v occurs => vars v (.inl occurs)) fun p occurs => params p (.inl occurs)]
      congr 1
      apply List.map_congr_left
      intro arg membership
      apply argsIH arg membership
      · intro v occurs
        exact vars v (.inr ⟨arg, membership, occurs⟩)
      · intro p occurs
        exact params p (.inr ⟨arg, membership, occurs⟩)
  | param p => exact params p (List.mem_singleton_self p)
  | array element ih =>
      rw [graft, graft, ih vars params]

/-- Two replacements in a row are one. -/
theorem graft_graft (onVar onVar' : TyVar → Ty) (onParam onParam' : TyParam → Ty) (ty : Ty) :
    (ty.graft onVar onParam).graft onVar' onParam' =
      ty.graft (fun v => (onVar v).graft onVar' onParam')
        (fun p => (onParam p).graft onVar' onParam') := by
  induction ty using Ty.induction with
  | var v => rfl
  | con constructor => rfl
  | app head args headIH argsIH =>
      simp only [graft, graftList_eq_map, List.map_map, headIH]
      congr 1
      apply List.map_congr_left
      intro arg membership
      exact argsIH arg membership
  | param p => rfl
  | array element ih => simp only [graft, ih]

/-! ## Leaves -/

/-- What a type ends in: everything but applications and arrays. -/
inductive Leaf where
  | var (index : TyVar)
  | con (constructor : TypeName)
  | param (param : TyParam)
  deriving DecidableEq

mutual

/-- The leaves of a type, from left to right, heads of applications included. -/
def leaves : Ty → List Leaf
  | .var v => [.var v]
  | .con constructor => [.con constructor]
  | .app head args => head.leaves ++ leavesList args
  | .param p => [.param p]
  | .array element => element.leaves

/-- The leaves of a list of types. -/
def leavesList : List Ty → List Leaf
  | [] => []
  | ty :: rest => ty.leaves ++ leavesList rest

end

@[simp] theorem leavesList_eq_flatMap (types : List Ty) :
    leavesList types = types.flatMap leaves := by
  induction types with
  | nil => rfl
  | cons ty rest ih => simp [leavesList, ih]

theorem mem_vars_iff {ty : Ty} {v : TyVar} : v ∈ ty.vars ↔ .var v ∈ ty.leaves := by
  induction ty using Ty.induction with
  | app head args headIH argsIH =>
      simp only [vars, varsList_eq_flatMap, leaves, leavesList_eq_flatMap, List.mem_append,
        List.mem_flatMap, headIH]
      grind
  | array element ih => exact ih
  | _ => simp [vars, leaves]

theorem mem_params_iff {ty : Ty} {p : TyParam} : p ∈ ty.params ↔ .param p ∈ ty.leaves := by
  induction ty using Ty.induction with
  | app head args headIH argsIH =>
      simp only [params, paramsList_eq_flatMap, leaves, leavesList_eq_flatMap, List.mem_append,
        List.mem_flatMap, headIH]
      grind
  | array element ih => exact ih
  | _ => simp [params, leaves]

/-- The arguments of a named type are part of it. -/
theorem mem_leaves_of_head? {ty arg : Ty} {constructor : TypeName} {args : List Ty}
    (named : ty.head? = some (constructor, args)) (isArg : arg ∈ args) {leaf : Leaf}
    (inArg : leaf ∈ arg.leaves) : leaf ∈ ty.leaves := by
  simp only [head?] at named
  split at named <;> cases named
  · cases isArg
  · rw [leaves, leavesList_eq_flatMap, List.mem_append, List.mem_flatMap]
    exact .inr ⟨arg, isArg, inArg⟩

/-- A replacement leaves named types as they are and puts the leaves of other types in the
place of variables and type parameters. -/
theorem mem_leaves_graft {onVar : TyVar → Ty} {onParam : TyParam → Ty} {ty : Ty} {leaf : Leaf} :
    leaf ∈ (ty.graft onVar onParam).leaves ↔
      (∃ v ∈ ty.vars, leaf ∈ (onVar v).leaves) ∨
      (∃ constructor, leaf = .con constructor ∧ leaf ∈ ty.leaves) ∨
      ∃ p ∈ ty.params, leaf ∈ (onParam p).leaves := by
  induction ty using Ty.induction with
  | app head args headIH argsIH =>
      simp only [graft, graftList_eq_map, vars, varsList_eq_flatMap, params,
        paramsList_eq_flatMap, leaves, leavesList_eq_flatMap, List.mem_append,
        List.mem_flatMap, List.mem_map, headIH]
      grind
  | array element ih => exact ih
  | _ => grind [graft, vars, params, leaves]

/-- The variables after a replacement are those of the types put in. -/
theorem mem_vars_graft {onVar : TyVar → Ty} {onParam : TyParam → Ty} {ty : Ty} {w : TyVar} :
    w ∈ (ty.graft onVar onParam).vars ↔
      (∃ v ∈ ty.vars, w ∈ (onVar v).vars) ∨ ∃ p ∈ ty.params, w ∈ (onParam p).vars := by
  simp [mem_vars_iff, mem_leaves_graft]

/-- The type parameters after a replacement are those of the types put in. -/
theorem mem_params_graft {onVar : TyVar → Ty} {onParam : TyParam → Ty} {ty : Ty} {q : TyParam} :
    q ∈ (ty.graft onVar onParam).params ↔
      (∃ v ∈ ty.vars, q ∈ (onVar v).params) ∨ ∃ p ∈ ty.params, q ∈ (onParam p).params := by
  simp [mem_params_iff, mem_leaves_graft]

/-! ## Instances -/

theorem assign_eq_graft (assignment : TyVar → Ty) (ty : Ty) :
    ty.assign assignment = ty.graft assignment .param := by
  induction ty using Ty.induction with
  | app head args headIH argsIH =>
      simp only [assign, assignList_eq_map, graft, graftList_eq_map, headIH,
        List.map_congr_left argsIH]
  | array element ih => simp only [assign, graft, ih]
  | _ => rfl

theorem subst_eq_graft (substitution : Subst) (ty : Ty) :
    ty.subst substitution =
      ty.graft .var fun p => (substitution.image? p).getD (.param p) := by
  induction ty using Ty.induction with
  | app head args headIH argsIH =>
      simp only [subst, substList_eq_map, graft, graftList_eq_map, headIH,
        List.map_congr_left argsIH]
  | array element ih => simp only [subst, graft, ih]
  | _ => rfl

theorem erased_eq_graft (ty : Ty) :
    ty.erased = ty.graft .var fun p => .param ⟨p.key, ""⟩ := by
  induction ty using Ty.induction with
  | app head args headIH argsIH =>
      simp only [erased, erasedList_eq_map, graft, graftList_eq_map, headIH,
        List.map_congr_left argsIH]
  | array element ih => simp only [erased, graft, ih]
  | _ => rfl

end MethodGroups.Ty
