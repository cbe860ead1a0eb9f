import MethodGroups.Proofs.Ty.Assignment

/-!
# Types without inference variables

What is written in source has no inference variables.  An assignment does not touch
it, and reaches the images of a substitution in it.
-/

namespace MethodGroups.Ty

/-- No inference variable occurs in the type. -/
def VarFree (ty : Ty) : Prop := ty.vars = []

instance (ty : Ty) : Decidable ty.VarFree := inferInstanceAs (Decidable (_ = _))

theorem varFree_iff {ty : Ty} : ty.VarFree ↔ ∀ v, v ∉ ty.vars := List.eq_nil_iff_forall_not_mem

theorem varFree_named {constructor : TypeName} {args : List Ty}
    (argsFree : ∀ arg ∈ args, arg.VarFree) : (named constructor args).VarFree := by
  cases args with
  | nil => rfl
  | cons first rest =>
      change [] ++ varsList (first :: rest) = []
      rw [List.nil_append, varsList_eq_flatMap, List.flatMap_eq_nil_iff]
      exact argsFree

theorem Same.varFree {left right : Ty} (same : left.Same right) (varFree : left.VarFree) :
    right.VarFree :=
  same.vars_eq.symm.trans varFree

theorem VarFree.subst {ty : Ty} (varFree : ty.VarFree) {substitution : Subst}
    (images : ∀ p image, substitution.image? p = some image → image.VarFree) :
    (ty.subst substitution).VarFree := by
  rw [varFree_iff] at varFree ⊢
  intro v occurs
  rcases mem_vars_subst.mp occurs with own | ⟨p, -, image, found, inImage⟩
  · exact varFree v own
  · exact varFree_iff.mp (images p image found) v inImage

theorem VarFree.assign {ty : Ty} (varFree : ty.VarFree) (assignment : TyVar → Ty) :
    ty.assign assignment = ty := by
  have unchanged : ty.assign assignment = ty.assign .var := by
    apply assign_congr
    intro v occurs
    exact (varFree_iff.mp varFree v occurs).elim
  rw [unchanged, assign_var]

/-- An assignment after a substitution is an assignment in the images. -/
theorem VarFree.assign_subst {ty : Ty} (varFree : ty.VarFree) (substitution : Subst)
    (assignment : TyVar → Ty) :
    (ty.subst substitution).assign assignment =
      ty.subst (substitution.map fun entry => (entry.1, entry.2.assign assignment)) := by
  rw [subst_eq_graft, assign_eq_graft, graft_graft, subst_eq_graft]
  apply graft_congr
  · intro v occurs
    exact (varFree_iff.mp varFree v occurs).elim
  · intro p _
    rw [Subst.image?_map]
    cases substitution.image? p with
    | none => rfl
    | some image => exact (assign_eq_graft assignment image).symm

end MethodGroups.Ty
