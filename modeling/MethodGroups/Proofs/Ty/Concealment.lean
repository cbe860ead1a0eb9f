import MethodGroups.Proofs.Ty.VarFree
import Mathlib.Logic.Function.Basic

/-!
# Concealing the type parameters of methods

From outside a method, its type parameters are types of which nothing is known but which
is which.  A type is concealed when each of them is replaced by a named type of its own.
If these names occur nowhere else, the type can be revealed again.  Both directions
commute with substitution, so whatever is known of concealed types is known of the types
themselves.
-/

namespace MethodGroups.Ty

/-- Put a named type in the place of each type parameter of a method. -/
def concealed (names : Nat → TypeName) (ty : Ty) : Ty :=
  ty.graft .var fun p =>
    if p.key.owner = .method then .con (names p.key.index) else .param p

mutual

/-- Put types in the place of named types. -/
def recast (onCon : TypeName → Ty) : Ty → Ty
  | .var v => .var v
  | .con constructor => onCon constructor
  | .app head args => .app (head.recast onCon) (recastList onCon args)
  | .param p => .param p
  | .array element => .array (element.recast onCon)

/-- Put types in the place of the named types of each type of a list. -/
def recastList (onCon : TypeName → Ty) : List Ty → List Ty
  | [] => []
  | ty :: rest => ty.recast onCon :: recastList onCon rest

end

@[simp] theorem recastList_eq_map (onCon : TypeName → Ty) (types : List Ty) :
    recastList onCon types = types.map (recast onCon) := by
  induction types with
  | nil => rfl
  | cons ty rest ih => simp [recastList, ih]

/-- Put the type parameters of a method, with no spelling, in the place of the names that
conceal them. -/
noncomputable def revealed (names : Nat → TypeName) (ty : Ty) : Ty :=
  ty.recast (Function.extend names (fun index => .param ⟨⟨.method, index⟩, ""⟩) .con)

/-- None of the names occurs in the type. -/
def Avoids (names : Nat → TypeName) (ty : Ty) : Prop :=
  ∀ constructor, .con constructor ∈ ty.leaves → ∀ index, names index ≠ constructor

variable {names : Nat → TypeName}

theorem avoids_app {head : Ty} {args : List Ty} :
    (Ty.app head args).Avoids names ↔ head.Avoids names ∧ ∀ arg ∈ args, arg.Avoids names := by
  simp only [Avoids, leaves, leavesList_eq_flatMap, List.mem_append, List.mem_flatMap]
  grind

theorem Avoids.subst {ty : Ty} (avoids : ty.Avoids names) {substitution : Subst}
    (images : ∀ p image, substitution.image? p = some image → image.Avoids names) :
    (ty.subst substitution).Avoids names := by
  intro constructor occurs
  rw [subst_eq_graft, mem_leaves_graft] at occurs
  rcases occurs with ⟨v, -, inVar⟩ | ⟨_, -, own⟩ | ⟨p, -, inImage⟩
  · simp [leaves] at inVar
  · exact avoids constructor own
  · cases found : substitution.image? p with
    | none => simp [found, leaves] at inImage
    | some image =>
        rw [found] at inImage
        exact images p image found constructor inImage

/-! ## Concealing -/

theorem concealed_param (p : TyParam) :
    (Ty.param p).concealed names =
      if p.key.owner = .method then .con (names p.key.index) else .param p := rfl

theorem concealed_app (head : Ty) (args : List Ty) :
    (Ty.app head args).concealed names =
      .app (head.concealed names) (args.map (concealed names)) := by
  rw [concealed, graft, graftList_eq_map]
  rfl

/-- A named type keeps its name. -/
theorem head?_concealed {ty : Ty} {constructor : TypeName} {args : List Ty}
    (named : ty.head? = some (constructor, args)) :
    (ty.concealed names).head? = some (constructor, args.map (concealed names)) := by
  simp only [head?] at named
  split at named <;> cases named
  · rfl
  · rw [concealed_app]
    rfl

/-- A type without a name gets one only by concealing. -/
theorem exists_name_of_head?_concealed {ty : Ty} (unnamed : ty.head? = none)
    {constructor : TypeName} {args : List Ty}
    (named : (ty.concealed names).head? = some (constructor, args)) :
    ∃ index, names index = constructor := by
  cases ty with
  | con => cases unnamed
  | var | array => cases named
  | param p =>
      rw [concealed_param] at named
      split at named <;> cases named
      exact ⟨_, rfl⟩
  | app head args =>
      rw [concealed_app] at named
      cases head with
      | con => cases unnamed
      | var | app | array => cases named
      | param p =>
          rw [concealed_param] at named
          split at named <;> cases named
          exact ⟨_, rfl⟩

/-- A concealed type mentions no type parameter of a method. -/
theorem not_mem_params_concealed {ty : Ty} {p : TyParam} (owner : p.key.owner = .method) :
    p ∉ (ty.concealed names).params := by
  rw [concealed, mem_params_graft]
  rintro (⟨v, -, inVar⟩ | ⟨q, -, inImage⟩)
  · cases inVar
  · split at inImage
    case isTrue => cases inImage
    case isFalse other =>
      cases List.mem_singleton.mp inImage
      exact other owner

theorem VarFree.concealed {ty : Ty} (varFree : ty.VarFree) : (ty.concealed names).VarFree := by
  rw [varFree_iff] at varFree ⊢
  intro v occurs
  rw [Ty.concealed, mem_vars_graft] at occurs
  rcases occurs with ⟨w, own, -⟩ | ⟨p, -, inImage⟩
  · exact varFree w own
  · split at inImage <;> cases inImage

/-- Concealing does not look at spellings. -/
theorem Same.concealed {left right : Ty} (same : left.Same right) :
    (left.concealed names).Same (right.concealed names) := by
  have erasedConcealed : ∀ ty : Ty,
      (ty.concealed names).erased = (ty.erased.concealed names).erased := by
    intro ty
    simp only [Ty.concealed, erased_eq_graft, graft_graft]
    apply graft_congr
    · intro v _
      rfl
    · intro p _
      by_cases owner : p.key.owner = .method <;> simp [graft, owner]
  rw [Same] at same ⊢
  rw [erasedConcealed left, erasedConcealed right, same]

/-- Concealing commutes with a substitution that replaces all type parameters of
methods. -/
theorem concealed_subst {substitution : Subst} {ty : Ty}
    (covered : ∀ p ∈ ty.params, p.key.owner = .method → (substitution.image? p).isSome) :
    (ty.subst substitution).concealed names =
      ty.subst (substitution.map fun entry => (entry.1, entry.2.concealed names)) := by
  rw [subst_eq_graft, concealed, graft_graft, subst_eq_graft]
  apply graft_congr
  · intro v _
    rfl
  · intro p mentioned
    rw [Subst.image?_map]
    cases found : substitution.image? p with
    | some image => rfl
    | none =>
        have other : p.key.owner ≠ .method := by
          intro owner
          have image := covered p mentioned owner
          rw [found] at image
          cases image
        exact if_neg other

/-! ## Revealing -/

theorem revealed_app (head : Ty) (args : List Ty) :
    (Ty.app head args).revealed names =
      .app (head.revealed names) (args.map (revealed names)) := by
  rw [revealed, recast, recastList_eq_map]
  rfl

/-- A named type that conceals nothing stays as it is. -/
theorem revealed_con {constructor : TypeName} (avoids : (Ty.con constructor).Avoids names) :
    (Ty.con constructor).revealed names = .con constructor := by
  rw [revealed, recast]
  apply Function.extend_apply'
  rintro ⟨index, isName⟩
  exact avoids constructor (List.mem_singleton_self _) index isName

/-- A name that conceals a parameter reveals it. -/
theorem revealed_name (distinct : Function.Injective names) (index : Nat) :
    (Ty.con (names index)).revealed names = .param ⟨⟨.method, index⟩, ""⟩ := by
  rw [revealed, recast, distinct.extend_apply]

/-- What was concealed is revealed again, but for spellings. -/
theorem revealed_concealed (distinct : Function.Injective names) {ty : Ty}
    (avoids : ty.Avoids names) : ((ty.concealed names).revealed names).Same ty := by
  induction ty using Ty.induction with
  | var v => rfl
  | con constructor => exact congrArg erased (revealed_con avoids)
  | app head args headIH argsIH =>
      obtain ⟨headAvoids, argsAvoid⟩ := avoids_app.mp avoids
      rw [concealed_app, revealed_app, Same.app_iff, List.map_map, List.forall₂_map_left_iff,
        List.forall₂_same]
      exact ⟨headIH headAvoids, fun arg membership =>
        argsIH arg membership (argsAvoid arg membership)⟩
  | param p =>
      rw [concealed_param]
      by_cases owner : p.key.owner = .method
      · rw [if_pos owner, revealed_name distinct, ← owner]
        rfl
      · rw [if_neg owner]
        rfl
  | array element ih => exact congrArg array (ih avoids)

/-- Revealing does not look at spellings. -/
theorem Same.revealed {left right : Ty} (same : left.Same right) :
    (left.revealed names).Same (right.revealed names) := by
  have erasedRevealed : ∀ ty : Ty,
      (ty.revealed names).erased = (ty.erased.revealed names).erased := by
    intro ty
    induction ty using Ty.induction with
    | var v => rfl
    | con constructor => rfl
    | app head args headIH argsIH =>
        rw [erased, erasedList_eq_map, revealed_app, revealed_app, erased, erased,
          erasedList_eq_map, erasedList_eq_map, headIH, List.map_map, List.map_map, List.map_map]
        congr 1
        exact List.map_congr_left argsIH
    | param p => rfl
    | array element ih => exact congrArg array ih
  rw [Same] at same ⊢
  rw [erasedRevealed left, erasedRevealed right, same]

/-- Revealing commutes with substitution, as far as it leaves the written type alone. -/
theorem revealed_subst (substitution : Subst) {ty : Ty} (avoids : ty.Avoids names) :
    (ty.subst substitution).revealed names =
      ty.subst (substitution.map fun entry => (entry.1, entry.2.revealed names)) := by
  induction ty using Ty.induction with
  | var v => rfl
  | con constructor => exact revealed_con avoids
  | app head args headIH argsIH =>
      obtain ⟨headAvoids, argsAvoid⟩ := avoids_app.mp avoids
      simp only [subst, substList_eq_map, revealed_app, headIH headAvoids, List.map_map]
      congr 1
      apply List.map_congr_left
      intro arg membership
      exact argsIH arg membership (argsAvoid arg membership)
  | param p =>
      simp only [subst, Subst.image?_map]
      cases substitution.image? p <;> rfl
  | array element ih => exact congrArg array (ih avoids)

end MethodGroups.Ty
