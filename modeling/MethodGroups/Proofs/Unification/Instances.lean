import MethodGroups.Proofs.Unification.Steps

/-!
# Unification of instances

Types without inference variables may be put in the place of type parameters before two
types are unified or after it.  Unification takes the instances apart as it did the types
themselves, and where it met one type parameter on both sides, it now meets one type on both
sides, which asks for nothing.  What is learned from the instances is the instance of what
was learned before.
-/

namespace MethodGroups

/-- The images have no inference variables. -/
def Subst.VarFree (substitution : Subst) : Prop :=
  ∀ p image, substitution.image? p = some image → image.VarFree

/-- Mentions of one type parameter have one image. -/
theorem Subst.image?_eq_of_key {left right : TyParam} (keys : left.key = right.key)
    (substitution : Subst) : substitution.image? left = substitution.image? right := by
  rw [image?, image?, keys]

variable {substitution : Subst}

namespace Ty

variable (varFree : substitution.VarFree)

include varFree

theorem vars_subst (ty : Ty) : (ty.subst substitution).vars = ty.vars := by
  induction ty using Ty.induction with
  | var v => rfl
  | con constructor => rfl
  | app head args headIH argsIH =>
      simp only [subst, substList_eq_map, vars, varsList_eq_flatMap, headIH, List.flatMap_map]
      congr 1
      exact List.flatMap_congr argsIH
  | param p =>
      rw [subst]
      cases found : substitution.image? p with
      | none => rfl
      | some image => exact varFree p image found
  | array element ih => simpa only [subst, vars] using ih

theorem subst_assign (assignment : TyVar → Ty) (ty : Ty) :
    (ty.assign assignment).subst substitution =
      (ty.subst substitution).assign fun v => (assignment v).subst substitution := by
  rw [assign_eq_graft, assign_eq_graft, subst_eq_graft, subst_eq_graft, graft_graft, graft_graft]
  apply graft_congr
  · intro v _
    rw [graft, subst_eq_graft]
  · intro p _
    rw [graft]
    cases found : substitution.image? p with
    | none => rfl
    | some image =>
        rw [Option.getD_some, ← assign_eq_graft, (varFree p image found).assign]

theorem subst_replace (ty : Ty) (v : TyVar) (image : Ty) :
    (ty.replace v image).subst substitution =
      (ty.subst substitution).replace v (image.subst substitution) := by
  rw [replace, replace, subst_assign varFree]
  congr 1
  funext w
  split <;> rfl

/-- Only a variable has a variable for an instance. -/
theorem subst_ne_var {ty : Ty} (proper : ∀ w, ty ≠ .var w) (w : TyVar) :
    ty.subst substitution ≠ .var w := by
  intro isVar
  cases ty with
  | var v => exact proper v rfl
  | con | app | array => cases isVar
  | param p =>
      have vars := vars_subst varFree (.param p)
      rw [isVar] at vars
      cases vars

end Ty

namespace Goal

/-- The goal about the instances of its types. -/
def subst (substitution : Subst) : Goal → Goal
  | .same left right => .same (left.subst substitution) (right.subst substitution)
  | .arity expected found => .arity expected found

theorem subst_ofApplications (leftHead : Ty) (leftArgs : List Ty) (rightHead : Ty)
    (rightArgs : List Ty) :
    (ofApplications leftHead leftArgs rightHead rightArgs).map (subst substitution) =
      ofApplications (leftHead.subst substitution) (leftArgs.map (Ty.subst substitution))
        (rightHead.subst substitution) (rightArgs.map (Ty.subst substitution)) := by
  simp only [ofApplications, List.map_cons, subst, List.length_map, List.map_zipWith,
    List.zipWith_map]

variable (varFree : substitution.VarFree)

include varFree

theorem subst_replace (goal : Goal) (v : TyVar) (image : Ty) :
    (goal.replace v image).subst substitution =
      (goal.subst substitution).replace v (image.subst substitution) := by
  cases goal with
  | arity expected found => rfl
  | same left right =>
      rw [replace, subst, Ty.subst_replace varFree, Ty.subst_replace varFree]
      rfl

theorem map_subst_replace (goals : List Goal) (v : TyVar) (image : Ty) :
    (goals.map (replace v image)).map (subst substitution) =
      (goals.map (subst substitution)).map (replace v (image.subst substitution)) := by
  rw [List.map_map, List.map_map]
  apply List.map_congr_left
  intro goal _
  exact goal.subst_replace varFree v image

theorem step_subst_assign {goal : Goal} {v : TyVar} {ty : Ty}
    (assigns : goal.step = .assign v ty) :
    (goal.subst substitution).step = .assign v (ty.subst substitution) := by
  cases goal with
  | arity expected found =>
      rw [step] at assigns
      split at assigns <;> cases assigns
  | same left right =>
      obtain ⟨sides, proper, absent⟩ := sameStep_eq_assign_iff.mp assigns
      rw [subst, step, sameStep_eq_assign_iff]
      refine ⟨?_, Ty.subst_ne_var varFree proper, by rwa [Ty.vars_subst varFree]⟩
      rcases sides with ⟨rfl, rfl⟩ | ⟨rfl, rfl⟩
      · exact .inl ⟨rfl, rfl⟩
      · exact .inr ⟨rfl, rfl⟩

omit varFree in
theorem step_subst_unite {goal : Goal} {v w : TyVar} (unites : goal.step = .unite v w) :
    (goal.subst substitution).step = .unite v w := by
  cases goal with
  | arity expected found =>
      rw [step] at unites
      split at unites <;> cases unites
  | same left right =>
      obtain ⟨rfl, rfl, differ⟩ := sameStep_eq_unite_iff.mp unites
      exact sameStep_eq_unite_iff.mpr ⟨rfl, rfl, differ⟩

end Goal

namespace Context

/-- The context with instances of what it knows. -/
def subst (substitution : Subst) (context : Context) : Context :=
  { context with
    bindings := context.bindings.map fun entry => (entry.1, entry.2.subst substitution) }

theorem subst_bind (context : Context) (v : TyVar) (ty : Ty) :
    (context.bind v ty).subst substitution =
      (context.subst substitution).bind v (ty.subst substitution) := rfl

theorem subst_link (context : Context) (child parent : TyVar) :
    (context.link child parent).subst substitution =
      (context.subst substitution).link child parent := rfl

theorem isOpen_subst {context : Context} {v : TyVar} :
    (context.subst substitution).IsOpen v ↔ context.IsOpen v := by
  rw [IsOpen, IsOpen, subst, List.map_map]
  exact Iff.rfl

theorem resolve_subst (varFree : substitution.VarFree) (context : Context) (ty : Ty) :
    (context.subst substitution).resolve (ty.subst substitution) =
      (context.resolve ty).subst substitution := by
  induction context using bindings_induction with
  | unbound ranks => rfl
  | bind context v image ih =>
      rw [subst_bind, resolve_bind, resolve_bind, ih, Ty.subst_replace varFree]

/-- A type is equal to itself, and nothing is learned from this. -/
theorem solve_same_self (context : Context) (ty : Ty) (rest : List Goal) :
    context.solve (.same ty ty :: rest) = context.solve rest := by
  induction ty using Ty.induction generalizing rest with
  | var v => simp [solve_cons, Goal.step, Goal.sameStep]
  | con constructor => simp [solve_cons, Goal.step, Goal.sameStep]
  | param p => simp [solve_cons, Goal.step, Goal.sameStep]
  | array element ih =>
      rw [solve_cons]
      exact ih rest
  | app head args headIH argsIH =>
      have equalArgs : context.solve (List.zipWith Goal.same args args ++ rest) =
          context.solve rest := by
        induction args with
        | nil => rfl
        | cons arg others othersIH =>
            rw [List.zipWith_cons_cons, List.cons_append, argsIH arg List.mem_cons_self]
            exact othersIH fun other isOther => argsIH other (List.mem_cons_of_mem _ isOther)
      have equalLengths : context.solve (.arity args.length args.length ::
          (List.zipWith Goal.same args args ++ rest)) = context.solve rest := by
        simpa [solve_cons, Goal.step] using equalArgs
      rw [solve_cons]
      exact (headIH _).trans equalLengths

/-- The instance of a goal that is split asks for the instances of the parts. -/
theorem solve_subst_split {goal : Goal} {parts : List Goal} (splits : goal.step = .split parts)
    (context : Context) (rest : List Goal) :
    context.solve (goal.subst substitution :: rest) =
      context.solve (parts.map (Goal.subst substitution) ++ rest) := by
  cases goal with
  | arity expected found =>
      rw [Goal.subst, solve_cons, splits]
      rw [Goal.step] at splits
      split at splits <;> cases splits
      rfl
  | same left right =>
      cases Goal.sameStep_eq_split_iff.mp splits with
      | var v => exact solve_same_self context (.var v) rest
      | con constructor => exact solve_same_self context (.con constructor) rest
      | @param left right keys =>
          rw [Goal.subst, Ty.subst, Ty.subst, Subst.image?_eq_of_key keys]
          cases substitution.image? right with
          | none => simp [solve_cons, Goal.step, Goal.sameStep, keys]
          | some image => exact solve_same_self context image rest
      | app leftHead leftArgs rightHead rightArgs =>
          rw [Goal.subst_ofApplications, Goal.subst, solve_cons, Ty.subst, Ty.subst,
            Ty.substList_eq_map, Ty.substList_eq_map]
          rfl
      | array left right =>
          rw [solve_cons]
          rfl

/-- What is learned from the instances of solved goals is the instance of what was learned
from the goals. -/
theorem solve_subst (varFree : substitution.VarFree) (context : Context) (goals : List Goal)
    {learned : Context} (succeeds : context.solve goals = (.ok (), learned)) :
    (context.subst substitution).solve (goals.map (Goal.subst substitution)) =
      (.ok (), learned.subst substitution) := by
  induction context, goals using solve_induction with
  | done context =>
      rw [solve_nil] at succeeds
      cases succeeds
      exact solve_nil _
  | fail context goal rest error taken =>
      rw [solve_cons, taken] at succeeds
      cases succeeds
  | split context goal rest parts taken ih =>
      rw [solve_cons, taken] at succeeds
      have solved := ih succeeds
      rw [List.map_append] at solved
      rw [List.map_cons, solve_subst_split taken]
      exact solved
  | assign context goal rest v ty taken ih =>
      simp only [solve_cons, taken] at succeeds
      split at succeeds
      · next isOpen =>
        have solved := ih isOpen succeeds
        rw [subst_bind, Goal.map_subst_replace varFree] at solved
        simp only [List.map_cons, solve_cons, Goal.step_subst_assign varFree taken]
        rw [if_pos (isOpen_subst.mpr isOpen)]
        exact solved
      · cases succeeds
  | unite context goal rest v w taken ih =>
      simp only [solve_cons, taken] at succeeds
      split at succeeds
      · next isOpen =>
        have solved := ih _ _ rfl isOpen succeeds
        rw [subst_link, Goal.map_subst_replace varFree] at solved
        simp only [List.map_cons, solve_cons, Goal.step_subst_unite taken]
        exact (if_pos (isOpen_subst.mpr isOpen)).trans solved
      · cases succeeds

theorem stray?_subst (varFree : substitution.VarFree) (context : Context) (ty : Ty) :
    (context.subst substitution).stray? (ty.subst substitution) = context.stray? ty := by
  rw [stray?, stray?, Ty.vars_subst varFree]
  rfl

theorem unify_subst (varFree : substitution.VarFree) {context learned : Context}
    {left right : Ty} (succeeds : context.unify left right = (.ok (), learned)) :
    (context.subst substitution).unify (left.subst substitution) (right.subst substitution) =
      (.ok (), learned.subst substitution) := by
  rw [unify] at succeeds ⊢
  rw [stray?_subst varFree, stray?_subst varFree, resolve_subst varFree, resolve_subst varFree]
  split at succeeds
  · cases succeeds
  · exact solve_subst varFree context [.same (context.resolve left) (context.resolve right)]
      succeeds

/-- What is learned from the instances of equations is the instance of what was learned from
the equations. -/
theorem unifyAll_subst (varFree : substitution.VarFree) {context learned : Context}
    {equations : List (Ty × Ty)} (succeeds : context.unifyAll equations = (.ok (), learned)) :
    (context.subst substitution).unifyAll
        (equations.map (Prod.map (Ty.subst substitution) (Ty.subst substitution))) =
      (.ok (), learned.subst substitution) := by
  induction equations generalizing context with
  | nil =>
      cases succeeds
      rfl
  | cons equation rest ih =>
      obtain ⟨left, right⟩ := equation
      rw [unifyAll] at succeeds
      split at succeeds
      · next between first =>
        rw [List.map_cons, Prod.map_apply, unifyAll, unify_subst varFree first]
        exact ih succeeds
      · next failed =>
        exact (failed _ succeeds).elim

end Context

end MethodGroups
