import MethodGroups.Proofs.Ty.VarFree

/-!
# Types within a set of type parameters

A type is within a set of type parameters if it mentions no other ones.  Substitution and
assignment bring in nothing but what their images mention, so what is put together from
types within a set stays within it.

A spelling gives each type parameter one name.  Types that keep to one spelling are the
same only if they are equal.
-/

namespace MethodGroups.Ty

variable {allowed : TyParam → Prop}

/-- Every type parameter that the type mentions is allowed. -/
def Within (allowed : TyParam → Prop) (ty : Ty) : Prop := ∀ p ∈ ty.params, allowed p

instance [DecidablePred allowed] (ty : Ty) : Decidable (ty.Within allowed) :=
  inferInstanceAs (Decidable (∀ p ∈ ty.params, allowed p))

theorem within_app {head : Ty} {args : List Ty} :
    (Ty.app head args).Within allowed ↔
      head.Within allowed ∧ ∀ arg ∈ args, arg.Within allowed := by
  simp only [Within, params, paramsList_eq_flatMap, List.mem_append, List.mem_flatMap]
  grind

theorem within_named {constructor : TypeName} {args : List Ty} :
    (named constructor args).Within allowed ↔ ∀ arg ∈ args, arg.Within allowed := by
  cases args with
  | nil => simp [named, Within, params]
  | cons first rest =>
      rw [named, List.isEmpty_cons, if_neg Bool.false_ne_true, within_app]
      exact and_iff_right fun p mentioned => by cases mentioned

namespace Within

theorem subst {substitution : Subst} {ty : Ty}
    (images : ∀ p ∈ ty.params, ((substitution.image? p).getD (.param p)).Within allowed) :
    (ty.subst substitution).Within allowed := by
  intro q occurs
  rw [subst_eq_graft, mem_params_graft] at occurs
  rcases occurs with ⟨v, -, inVar⟩ | ⟨p, mentioned, inImage⟩
  · cases inVar
  · exact images p mentioned q inImage

theorem replace {ty image : Ty} (within : ty.Within allowed)
    (imageWithin : image.Within allowed) (v : TyVar) : (ty.replace v image).Within allowed := by
  intro q occurs
  rw [Ty.replace, assign_eq_graft, mem_params_graft] at occurs
  rcases occurs with ⟨w, -, inImage⟩ | ⟨p, mentioned, own⟩
  · split at inImage
    · exact imageWithin q inImage
    · cases inImage
  · cases List.mem_singleton.mp own
    exact within q mentioned

/-- The arguments of a named type mention nothing that the type does not mention. -/
theorem of_head? {ty : Ty} (within : ty.Within allowed) {constructor : TypeName}
    {args : List Ty} (named : ty.head? = some (constructor, args)) :
    ∀ arg ∈ args, arg.Within allowed := by
  intro arg isArg p mentioned
  exact within p (mem_params_iff.mpr
    (mem_leaves_of_head? named isArg (mem_params_iff.mp mentioned)))

end Within

/-! ## Spellings -/

/-- Each type parameter is spelled as the spelling says. -/
def SpelledBy (spelling : ParamKey → String) : Ty → Prop :=
  Within fun p => p.name = spelling p.key

instance (spelling : ParamKey → String) (ty : Ty) : Decidable (ty.SpelledBy spelling) :=
  inferInstanceAs (Decidable (ty.Within fun p => p.name = spelling p.key))

/-- The erased names can be restored. -/
theorem SpelledBy.graft_erased {spelling : ParamKey → String} {ty : Ty}
    (spelled : ty.SpelledBy spelling) :
    ty.erased.graft .var (fun p => .param ⟨p.key, spelling p.key⟩) = ty := by
  have unchanged : ty.graft .var .param = ty := by rw [← assign_eq_graft, assign_var]
  rw [erased_eq_graft, graft_graft]
  conv_rhs => rw [← unchanged]
  apply graft_congr
  · intro v _
    rfl
  · intro p mentioned
    rw [graft, ← spelled p mentioned]

/-- Types that keep to one spelling are the same only if they are equal. -/
theorem Same.eq_of_spelledBy {spelling : ParamKey → String} {left right : Ty}
    (same : left.Same right) (leftSpelled : left.SpelledBy spelling)
    (rightSpelled : right.SpelledBy spelling) : left = right := by
  rw [← leftSpelled.graft_erased, same, rightSpelled.graft_erased]

theorem Same.list_eq_of_spelledBy {spelling : ParamKey → String} {left right : List Ty}
    (same : List.Forall₂ Same left right) (leftSpelled : ∀ ty ∈ left, ty.SpelledBy spelling)
    (rightSpelled : ∀ ty ∈ right, ty.SpelledBy spelling) : left = right := by
  induction same with
  | nil => rfl
  | cons first _ ih =>
      rw [List.forall_mem_cons] at leftSpelled rightSpelled
      rw [first.eq_of_spelledBy leftSpelled.1 rightSpelled.1, ih leftSpelled.2 rightSpelled.2]

end MethodGroups.Ty
