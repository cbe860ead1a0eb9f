import MethodGroups.Proofs.Ty.Graft

/-!
# Laws of substitution

Substituting twice is one substitution.  How a type changes under a substitution
depends only on the images of the parameters that it mentions, so a substitution
that covers all of them hides whatever comes after it from the parameters
themselves.
-/

namespace MethodGroups

namespace Subst

/-- Apply a second substitution to every image. -/
def through (first second : Subst) : Subst :=
  first.map fun entry => (entry.1, entry.2.subst second)

theorem image?_map (substitution : Subst) (change : Ty → Ty) (p : TyParam) :
    image? (substitution.map fun entry => (entry.1, change entry.2)) p =
      (substitution.image? p).map change := by
  simp only [image?, List.find?_map, Option.map_map]
  rfl

theorem image?_through (first second : Subst) (p : TyParam) :
    (first.through second).image? p = (first.image? p).map (Ty.subst second) :=
  first.image?_map (Ty.subst second) p

theorem image?_append (first second : Subst) (p : TyParam) :
    image? (first ++ second) p = (first.image? p).or (second.image? p) := by
  simp only [image?, List.find?_append]
  cases first.find? fun entry => entry.1.key = p.key <;> rfl

/-- An image belongs to an entry with the key of the parameter. -/
theorem exists_mem_of_image? {substitution : Subst} {p : TyParam} {image : Ty}
    (found : substitution.image? p = some image) :
    ∃ entry ∈ substitution, entry.1.key = p.key ∧ entry.2 = image := by
  rw [image?, Option.map_eq_some_iff] at found
  obtain ⟨entry, found, rfl⟩ := found
  exact ⟨entry, List.mem_of_find?_eq_some found, by simpa using List.find?_some found, rfl⟩

end Subst

namespace Ty

/-- A type mentions a parameter of a method when one of its mentions is owned by
a method. -/
theorem mentionsMethodParams_iff (ty : Ty) :
    ty.mentionsMethodParams = true ↔ ∃ p ∈ ty.params, p.key.owner = .method := by
  induction ty using Ty.induction with
  | var v => simp [mentionsMethodParams, params]
  | con constructor => simp [mentionsMethodParams, params]
  | app head args headIH argsIH =>
      have anyArg : anyMentionsMethodParams args = true ↔
          ∃ p ∈ args.flatMap params, p.key.owner = .method := by
        induction args with
        | nil => simp [anyMentionsMethodParams]
        | cons arg rest restIH =>
            have first := argsIH arg (by simp)
            have others := restIH fun other membership => argsIH other (by simp [membership])
            simp only [anyMentionsMethodParams, Bool.or_eq_true, first, others,
              List.flatMap_cons, List.mem_append, or_and_right, exists_or]
      simp only [mentionsMethodParams, params, paramsList_eq_flatMap, Bool.or_eq_true,
        headIH, anyArg, List.mem_append, or_and_right, exists_or]
  | param p => simp [mentionsMethodParams, params]
  | array element ih => simpa only [mentionsMethodParams, params] using ih

/-- Substitutions that agree on the mentioned parameters have the same effect. -/
theorem subst_congr {first second : Subst} {ty : Ty}
    (agree : ∀ p ∈ ty.params, first.image? p = second.image? p) :
    ty.subst first = ty.subst second := by
  rw [subst_eq_graft, subst_eq_graft]
  apply graft_congr
  · intro v _
    rfl
  · intro p mentioned
    rw [agree p mentioned]

/-- Two substitutions in a row are one: the images of the first are seen through
the second, which also acts on the parameters that the first leaves alone. -/
theorem subst_subst (first second : Subst) (ty : Ty) :
    (ty.subst first).subst second = ty.subst (first.through second ++ second) := by
  rw [subst_eq_graft first, subst_eq_graft second, graft_graft, subst_eq_graft]
  apply graft_congr
  · intro v _
    rfl
  · intro p _
    rw [Subst.image?_append, Subst.image?_through]
    cases first.image? p with
    | none => rfl
    | some image => exact (subst_eq_graft second image).symm

/-- A second substitution is seen only through the images of the first, if each
mentioned parameter has an image or is left alone by both. -/
theorem subst_through {first second : Subst} {ty : Ty}
    (covered : ∀ p ∈ ty.params, (first.image? p).isSome ∨ second.image? p = none) :
    (ty.subst first).subst second = ty.subst (first.through second) := by
  rw [subst_subst]
  apply subst_congr
  intro p membership
  rw [Subst.image?_append, Subst.image?_through]
  rcases covered p membership with image | untouched
  · obtain ⟨image, found⟩ := Option.isSome_iff_exists.mp image
    rw [found]
    rfl
  · rw [untouched, Option.or_none]

/-- A substitution keeps the constructor of a named type and changes its
arguments. -/
theorem head?_subst {ty : Ty} {constructor : TypeName} {args : List Ty}
    (named : ty.head? = some (constructor, args)) (substitution : Subst) :
    (ty.subst substitution).head? = some (constructor, args.map (subst substitution)) := by
  simp only [head?] at named
  split at named <;> cases named
  · rfl
  · simp only [subst, substList_eq_map, head?]

theorem subst_named (substitution : Subst) (constructor : TypeName) (args : List Ty) :
    (named constructor args).subst substitution =
      named constructor (args.map (subst substitution)) := by
  cases args <;> simp [named, subst]

/-- A named type is written as its constructor with its arguments; one without
arguments may also be written as an application to nothing. -/
theorem eq_named_or_of_head? {ty : Ty} {constructor : TypeName} {args : List Ty}
    (named : ty.head? = some (constructor, args)) :
    ty = .named constructor args ∨ args = [] ∧ ty = .app (.con constructor) [] := by
  simp only [head?] at named
  split at named <;> cases named
  · exact .inl rfl
  · cases args with
    | nil => exact .inr ⟨rfl, rfl⟩
    | cons first rest => exact .inl rfl

/-- The inference variables of a type under a substitution are its own and those
of the images. -/
theorem mem_vars_subst {substitution : Subst} {ty : Ty} {v : TyVar} :
    v ∈ (ty.subst substitution).vars ↔
      v ∈ ty.vars ∨ ∃ p ∈ ty.params, ∃ image, substitution.image? p = some image ∧
        v ∈ image.vars := by
  have inImage : ∀ p : TyParam, v ∈ ((substitution.image? p).getD (.param p)).vars ↔
      ∃ image, substitution.image? p = some image ∧ v ∈ image.vars := by
    intro p
    cases substitution.image? p <;> simp [vars]
  rw [subst_eq_graft, mem_vars_graft]
  simp [inImage, vars]

/-- A parameter that a substitution neither replaces nor brings in is mentioned where it was. -/
theorem mem_params_subst_of_foreign {substitution : Subst} {p : TyParam}
    (kept : substitution.image? p = none)
    (absent : ∀ q image, substitution.image? q = some image → p ∉ image.params) {ty : Ty} :
    p ∈ (ty.subst substitution).params ↔ p ∈ ty.params := by
  rw [subst_eq_graft, mem_params_graft]
  constructor
  · rintro (⟨v, -, inVar⟩ | ⟨q, mentioned, inImage⟩)
    · cases inVar
    · cases found : substitution.image? q with
      | none =>
          rw [found] at inImage
          cases List.mem_singleton.mp inImage
          exact mentioned
      | some image =>
          rw [found] at inImage
          exact (absent q image found inImage).elim
  · intro mentioned
    refine .inr ⟨p, mentioned, ?_⟩
    rw [kept]
    exact List.mem_singleton_self p

end Ty

end MethodGroups
