import MethodGroups.Proofs.Ty.Substitution
import Mathlib.Data.List.Forall2

/-!
# Erasing the spelling of type parameters

Types are the same when they agree after every spelling of a type parameter is
erased.  Erasure commutes with the two ways of replacing parts of a type, by
substitution of type parameters and by assignment of inference variables, so
whatever is built from same parts is the same.
-/

namespace MethodGroups

/-- Two substitutions are the same if they replace each type parameter by same types.  A
parameter without an image stays what it is. -/
def Subst.Same (first second : Subst) : Prop :=
  ∀ p : TyParam, ((Ty.param p).subst first).Same ((Ty.param p).subst second)

namespace Ty

/-- Substitution does not look at spellings. -/
theorem erased_subst (substitution : Subst) (ty : Ty) :
    (ty.subst substitution).erased =
      ty.erased.subst (substitution.map fun entry => (entry.1, entry.2.erased)) := by
  rw [subst_eq_graft, erased_eq_graft, graft_graft, erased_eq_graft, subst_eq_graft, graft_graft]
  apply graft_congr
  · intro v _
    rfl
  · intro p _
    have keyOnly : substitution.image? ⟨p.key, ""⟩ = substitution.image? p := rfl
    rw [graft, Subst.image?_map, keyOnly]
    cases substitution.image? p with
    | none => rfl
    | some image => exact (erased_eq_graft image).symm

/-- Assigning types to variables does not look at spellings. -/
theorem erased_assign (assignment : TyVar → Ty) (ty : Ty) :
    (ty.assign assignment).erased = ty.erased.assign fun v => (assignment v).erased := by
  rw [assign_eq_graft, erased_eq_graft, graft_graft, erased_eq_graft, assign_eq_graft,
    graft_graft]
  apply graft_congr
  · intro v _
    exact (erased_eq_graft (assignment v)).symm
  · intro p _
    rfl

/-- Erasing spellings keeps the inference variables. -/
@[simp] theorem vars_erased (ty : Ty) : ty.erased.vars = ty.vars := by
  induction ty using Ty.induction with
  | var v => rfl
  | con constructor => rfl
  | app head args headIH argsIH =>
      simp only [erased, erasedList_eq_map, vars, varsList_eq_flatMap, headIH,
        List.flatMap_map]
      congr 1
      exact List.flatMap_congr argsIH
  | param p => rfl
  | array element ih => simpa only [erased, vars] using ih

/-- Erasing spellings keeps the mentions of method parameters. -/
@[simp] theorem mentionsMethodParams_erased (ty : Ty) :
    ty.erased.mentionsMethodParams = ty.mentionsMethodParams := by
  induction ty using Ty.induction with
  | var v => rfl
  | con constructor => rfl
  | app head args headIH argsIH =>
      simp only [erased, mentionsMethodParams, headIH]
      congr 1
      induction args with
      | nil => rfl
      | cons arg rest restIH =>
          have first := argsIH arg (by simp)
          have others := restIH fun other membership => argsIH other (by simp [membership])
          simp only [erasedList, anyMentionsMethodParams, first, others]
  | param p => rfl
  | array element ih => simpa only [erased, mentionsMethodParams] using ih

namespace Same

/-- Erasing twice is erasing once. -/
theorem of_erased (ty : Ty) : ty.erased.Same ty := by
  rw [Same, erased_eq_graft, erased_eq_graft, graft_graft]
  rfl

/-- Same types are same after one substitution. -/
theorem subst {left right : Ty} (same : left.Same right) (substitution : Subst) :
    (left.subst substitution).Same (right.subst substitution) := by
  rw [Same]
  rw [erased_subst, erased_subst, same]

/-- Same types are same under same substitutions. -/
theorem subst_of_same {left right : Ty} (same : left.Same right) {first second : Subst}
    (images : first.Same second) : (left.subst first).Same (right.subst second) := by
  apply (same.subst first).trans
  rw [Same, subst_eq_graft first, subst_eq_graft second, erased_eq_graft, erased_eq_graft,
    graft_graft, graft_graft]
  apply graft_congr
  · intro v _
    rfl
  · intro p _
    rw [← erased_eq_graft, ← erased_eq_graft]
    exact images p

/-- Same types are same under assignments of same types. -/
theorem assign {left right : Ty} (same : left.Same right) {first second : TyVar → Ty}
    (images : ∀ v, (first v).Same (second v)) :
    (left.assign first).Same (right.assign second) := by
  rw [Same]
  rw [erased_assign, erased_assign, same]
  congr 1
  funext v
  exact images v

/-- Same types have the same inference variables. -/
theorem vars_eq {left right : Ty} (same : left.Same right) : left.vars = right.vars := by
  rw [← vars_erased left, same, vars_erased]

/-- Lists of types are the same, position by position, when they agree after
erasure. -/
theorem forall₂_iff {left right : List Ty} :
    List.Forall₂ Same left right ↔ left.map erased = right.map erased := by
  rw [← List.forall₂_eq_eq_eq, List.forall₂_map_left_iff, List.forall₂_map_right_iff]
  exact Iff.rfl

theorem forall₂_refl (types : List Ty) : List.Forall₂ Same types types :=
  forall₂_iff.mpr rfl

/-- Applications are the same when their heads and arguments are. -/
theorem app_iff {leftHead rightHead : Ty} {leftArgs rightArgs : List Ty} :
    (Ty.app leftHead leftArgs).Same (.app rightHead rightArgs) ↔
      leftHead.Same rightHead ∧ List.Forall₂ Same leftArgs rightArgs := by
  rw [forall₂_iff]
  simp only [Same, erased, erasedList_eq_map, app.injEq]

end Same

end Ty

end MethodGroups
