import MethodGroups.Proofs.Ty.Erasure

/-!
# Laws of assignment

Assigning types to inference variables twice is one assignment, and how a type
changes depends only on what its variables are assigned.  A variable that occurs
inside another type is never assigned the same type as this one, because it would be
smaller than itself.
-/

namespace MethodGroups.Ty

theorem assign_congr {first second : TyVar → Ty} {ty : Ty}
    (agree : ∀ v ∈ ty.vars, first v = second v) : ty.assign first = ty.assign second := by
  rw [assign_eq_graft, assign_eq_graft]
  exact graft_congr agree fun p _ => rfl

/-- Two assignments in a row are one. -/
theorem assign_assign (first second : TyVar → Ty) (ty : Ty) :
    (ty.assign first).assign second = ty.assign fun v => (first v).assign second := by
  simp only [assign_eq_graft, graft_graft]
  rfl

/-- The variables after an assignment are those of the assigned types. -/
theorem mem_vars_assign {assignment : TyVar → Ty} {ty : Ty} {w : TyVar} :
    w ∈ (ty.assign assignment).vars ↔ ∃ v ∈ ty.vars, w ∈ (assignment v).vars := by
  rw [assign_eq_graft, mem_vars_graft]
  simp [vars]

/-! ## Replacing one variable -/

theorem replace_of_not_mem {v : TyVar} {ty : Ty} (absent : v ∉ ty.vars) (image : Ty) :
    ty.replace v image = ty := by
  have unchanged : ty.replace v image = ty.assign .var := by
    apply assign_congr
    intro w occurs
    have other : w ≠ v := by
      intro same
      subst same
      exact absent occurs
    exact if_neg other
  rw [unchanged, assign_var]

theorem mem_vars_replace_iff {v w : TyVar} {image ty : Ty} :
    w ∈ (ty.replace v image).vars ↔ (w ∈ ty.vars ∧ w ≠ v) ∨ (v ∈ ty.vars ∧ w ∈ image.vars) := by
  rw [replace, mem_vars_assign]
  constructor
  · intro holds
    obtain ⟨u, inTy, inImage⟩ := holds
    by_cases same : u = v
    · rw [if_pos same] at inImage
      exact .inr ⟨same ▸ inTy, inImage⟩
    · rw [if_neg same] at inImage
      cases List.mem_singleton.mp inImage
      exact .inl ⟨inTy, same⟩
  · rintro (⟨inTy, other⟩ | ⟨inTy, inImage⟩)
    · refine ⟨w, inTy, ?_⟩
      rw [if_neg other]
      exact List.mem_singleton_self w
    · refine ⟨v, inTy, ?_⟩
      rw [if_pos rfl]
      exact inImage

theorem mem_vars_replace {v w : TyVar} {image ty : Ty} (occurs : w ∈ (ty.replace v image).vars) :
    (w ∈ ty.vars ∧ w ≠ v) ∨ w ∈ image.vars :=
  (mem_vars_replace_iff.mp occurs).imp_right And.right

/-- Replacing a variable by a type that it is assigned anyway changes nothing. -/
theorem Same.assign_replace {assignment : TyVar → Ty} {v : TyVar} {image : Ty}
    (same : (assignment v).Same (image.assign assignment)) (ty : Ty) :
    ((ty.replace v image).assign assignment).Same (ty.assign assignment) := by
  rw [replace, assign_assign]
  apply Same.assign (Same.refl ty)
  intro w
  by_cases target : w = v
  · subst target
    rw [if_pos rfl]
    exact same.symm
  · rw [if_neg target]
    exact Same.refl _

/-! ## Sizes -/

theorem size_erased (ty : Ty) : ty.erased.size = ty.size := by
  induction ty using Ty.induction with
  | var v => rfl
  | con constructor => rfl
  | app head args headIH argsIH =>
      have argsSize : sizeList (erasedList args) = sizeList args := by
        induction args with
        | nil => rfl
        | cons arg rest restIH =>
            have first := argsIH arg (by simp)
            have others := restIH fun other membership => argsIH other (by simp [membership])
            simp only [erasedList, sizeList, first, others]
      simp only [erased, size, headIH, argsSize]
  | param p => rfl
  | array element ih => simp only [erased, size, ih]

theorem Same.size_eq {left right : Ty} (same : left.Same right) : left.size = right.size := by
  rw [← size_erased left, same, size_erased]

theorem size_le_sizeList {ty : Ty} {types : List Ty} (membership : ty ∈ types) :
    ty.size ≤ sizeList types := by
  induction types with
  | nil => cases membership
  | cons first rest ih =>
      rw [sizeList]
      rcases List.mem_cons.mp membership with rfl | later
      · omega
      · have bound := ih later
        omega

theorem size_assign_le {assignment : TyVar → Ty} {v : TyVar} {ty : Ty} (occurs : v ∈ ty.vars) :
    (assignment v).size ≤ (ty.assign assignment).size := by
  induction ty using Ty.induction with
  | var w =>
      cases List.mem_singleton.mp occurs
      exact Nat.le_refl _
  | con constructor => cases occurs
  | app head args headIH argsIH =>
      simp only [vars, varsList_eq_flatMap, List.mem_append, List.mem_flatMap] at occurs
      simp only [assign, assignList_eq_map, size]
      rcases occurs with inHead | ⟨arg, membership, inArg⟩
      · have bound := headIH inHead
        omega
      · have bound := argsIH arg membership inArg
        have part := size_le_sizeList (List.mem_map_of_mem (f := assign assignment) membership)
        omega
  | param p => cases occurs
  | array element ih =>
      have bound := ih occurs
      simp only [assign, size]
      omega

/-- The occurs check: no assignment makes a variable the same as a type that it
occurs inside. -/
theorem not_same_of_occurs {assignment : TyVar → Ty} {v : TyVar} {ty : Ty}
    (occurs : v ∈ ty.vars) (proper : ty ≠ .var v) :
    ¬ (assignment v).Same (ty.assign assignment) := by
  intro same
  have sizes := same.size_eq
  cases ty with
  | var w =>
      cases List.mem_singleton.mp occurs
      exact proper rfl
  | con constructor => cases occurs
  | app head args =>
      simp only [vars, varsList_eq_flatMap, List.mem_append, List.mem_flatMap] at occurs
      simp only [assign, assignList_eq_map, size] at sizes
      rcases occurs with inHead | ⟨arg, membership, inArg⟩
      · have bound : (assignment v).size ≤ (head.assign assignment).size := size_assign_le inHead
        omega
      · have bound : (assignment v).size ≤ (arg.assign assignment).size := size_assign_le inArg
        have part := size_le_sizeList (List.mem_map_of_mem (f := assign assignment) membership)
        omega
  | param p => cases occurs
  | array element =>
      have bound : (assignment v).size ≤ (element.assign assignment).size :=
        size_assign_le occurs
      simp only [assign, size] at sizes
      omega

end MethodGroups.Ty
