import MethodGroups.Proofs.Ty.Within
import MethodGroups.Proofs.Unification.Steps

/-!
# The type parameters that unification learns about

A variable is only ever bound to what stands on the other side of an equation.  So if the
right sides are within a set of type parameters, and also the left sides wherever the right
ones have variables to be bound, then all that is learned is within the set.
-/

namespace MethodGroups

variable {allowed : TyParam → Prop}

/-- Whatever a variable is bound to by the equality of two types is within the set: what it
meets on the right is, and it meets what is on the left only if there are variables on the
right. -/
def Ty.Yields (allowed : TyParam → Prop) (left right : Ty) : Prop :=
  right.Within allowed ∧ (right.VarFree ∨ left.Within allowed)

namespace Goal

/-- Whatever the goal binds a variable to is within the set. -/
def Yields (allowed : TyParam → Prop) : Goal → Prop
  | .same left right => Ty.Yields allowed left right
  | .arity _ _ => True

theorem Yields.replace {goal : Goal} (yields : goal.Yields allowed) {image : Ty}
    (imageWithin : image.Within allowed) (v : TyVar) : (goal.replace v image).Yields allowed := by
  cases goal with
  | arity expected found => trivial
  | same left right =>
      obtain ⟨rightWithin, varFree | leftWithin⟩ := yields
      · have unchanged : right.replace v image = right := varFree.assign _
        rw [Goal.replace, unchanged]
        exact ⟨rightWithin, .inl varFree⟩
      · exact ⟨rightWithin.replace imageWithin v, .inr (leftWithin.replace imageWithin v)⟩

theorem Yields.ofApplications {leftHead rightHead : Ty} {leftArgs rightArgs : List Ty}
    (yields : Ty.Yields allowed (.app leftHead leftArgs) (.app rightHead rightArgs)) :
    ∀ part ∈ ofApplications leftHead leftArgs rightHead rightArgs, part.Yields allowed := by
  obtain ⟨rightWithin, sides⟩ := yields
  simp only [Ty.VarFree, Ty.vars, Ty.varsList_eq_flatMap, List.append_eq_nil_iff,
    List.flatMap_eq_nil_iff, Ty.within_app] at rightWithin sides
  intro part isPart
  simp only [Goal.ofApplications, List.mem_cons] at isPart
  rcases isPart with rfl | rfl | inArgs
  · exact ⟨rightWithin.1, sides.imp And.left And.left⟩
  · trivial
  · rw [zipWith_same, List.mem_map] at inArgs
    obtain ⟨⟨left, right⟩, inZip, rfl⟩ := inArgs
    obtain ⟨isLeft, isRight⟩ := List.of_mem_zip inZip
    exact ⟨rightWithin.2 right isRight, sides.imp (·.2 right isRight) (·.2 left isLeft)⟩

theorem Yields.split {goal : Goal} (yields : goal.Yields allowed) {parts : List Goal}
    (splits : goal.step = .split parts) : ∀ part ∈ parts, part.Yields allowed := by
  cases goal with
  | arity expected found =>
      rw [step] at splits
      split at splits <;> cases splits
      simp
  | same left right =>
      cases sameStep_eq_split_iff.mp splits with
      | var | con | param => simp
      | app => exact Yields.ofApplications yields
      | array => exact List.forall_mem_singleton.mpr yields

theorem Yields.assign {goal : Goal} (yields : goal.Yields allowed) {v : TyVar} {ty : Ty}
    (assigns : goal.step = .assign v ty) : ty.Within allowed := by
  cases goal with
  | arity expected found =>
      rw [step] at assigns
      split at assigns <;> cases assigns
  | same left right =>
      obtain ⟨⟨rfl, rfl⟩ | ⟨rfl, rfl⟩, -⟩ := sameStep_eq_assign_iff.mp assigns
      · exact yields.1
      · obtain ⟨-, impossible | leftWithin⟩ := yields
        · cases impossible
        · exact leftWithin

end Goal

namespace Context

/-- All types that variables are bound to are within the set. -/
def Within (allowed : TyParam → Prop) (context : Context) : Prop :=
  ∀ entry ∈ context.bindings, entry.2.Within allowed

variable {context : Context}

theorem within_ofSize (count : Nat) : (ofSize count).Within allowed := by
  simp [Within, ofSize]

theorem Within.bind (within : context.Within allowed) {ty : Ty} (tyWithin : ty.Within allowed)
    (v : TyVar) : (context.bind v ty).Within allowed := by
  intro entry membership
  rcases List.mem_cons.mp membership with rfl | older
  · exact tyWithin
  · exact within entry older

/-- A link adds no type parameters. -/
theorem Within.link (within : context.Within allowed) (child parent : TyVar) :
    (context.link child parent).Within allowed := by
  have bound : (context.bind child (.var parent)).Within allowed :=
    within.bind (fun p mentioned => by cases mentioned) child
  exact bound

theorem Within.resolve (within : context.Within allowed) {ty : Ty}
    (tyWithin : ty.Within allowed) : (context.resolve ty).Within allowed := by
  induction context using bindings_induction with
  | unbound ranks => exact tyWithin
  | bind context v image ih =>
      have imageWithin : image.Within allowed := within (v, image) List.mem_cons_self
      have olderWithin : context.Within allowed := fun entry older =>
        within entry (List.mem_cons_of_mem _ older)
      rw [resolve_bind]
      exact (ih olderWithin).replace imageWithin v

theorem solve_within (context : Context) (goals : List Goal) (within : context.Within allowed)
    (yields : ∀ goal ∈ goals, goal.Yields allowed) : (context.solve goals).2.Within allowed := by
  induction context, goals using solve_induction with
  | done context =>
      rw [solve_nil]
      exact within
  | fail context goal rest error taken =>
      rw [solve_cons, taken]
      exact within
  | split context goal rest parts taken ih =>
      rw [List.forall_mem_cons] at yields
      rw [solve_cons, taken]
      exact ih within (List.forall_mem_append.mpr ⟨yields.1.split taken, yields.2⟩)
  | assign context goal rest v ty taken ih =>
      rw [List.forall_mem_cons] at yields
      have tyWithin := yields.1.assign taken
      simp only [solve_cons, taken]
      split
      · next isOpen =>
        exact ih isOpen (within.bind tyWithin v) (List.forall_mem_map.mpr
          fun goal isGoal => (yields.2 goal isGoal).replace tyWithin v)
      · exact within
  | unite context goal rest v w taken ih =>
      rw [List.forall_mem_cons] at yields
      simp only [solve_cons, taken]
      split
      · next isOpen =>
        refine ih _ _ rfl isOpen (within.link _ _) (List.forall_mem_map.mpr
          fun goal isGoal => (yields.2 goal isGoal).replace ?_ _)
        intro p mentioned
        cases mentioned
      · exact within

theorem unify_within (within : context.Within allowed) {left right : Ty}
    (yields : Ty.Yields allowed left right) : (context.unify left right).2.Within allowed := by
  obtain ⟨rightWithin, sides⟩ := yields
  have resolved : Ty.Yields allowed (context.resolve left) (context.resolve right) := by
    refine ⟨within.resolve rightWithin, sides.imp ?_ within.resolve⟩
    intro varFree
    rw [context.resolve_of_varFree varFree]
    exact varFree
  rw [unify]
  split
  · exact within
  · exact solve_within context _ within (List.forall_mem_singleton.mpr resolved)

theorem unifyAll_within (within : context.Within allowed) {equations : List (Ty × Ty)}
    (yields : ∀ equation ∈ equations, Ty.Yields allowed equation.1 equation.2) :
    (context.unifyAll equations).2.Within allowed := by
  induction equations generalizing context with
  | nil => exact within
  | cons equation rest ih =>
      obtain ⟨left, right⟩ := equation
      obtain ⟨first, later⟩ := List.forall_mem_cons.mp yields
      have learnedWithin := unify_within within first
      rw [unifyAll]
      split
      · next learned attempt =>
        rw [attempt] at learnedWithin
        exact ih learnedWithin later
      · exact learnedWithin

end Context

end MethodGroups
