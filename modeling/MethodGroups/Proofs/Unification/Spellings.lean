import MethodGroups.Proofs.Unification.Steps
import Mathlib.Data.List.Forall2

/-!
# Spellings on the left are never learned

When the types on the right have no inference variables, a variable is only ever
bound to a part of a type on the right.  So two unifications whose left sides differ
at most in spellings, and whose right sides are equal, succeed together and learn
exactly the same, down to the spellings.
-/

namespace MethodGroups

/-- Goals that differ at most in the spellings on the left, and have no inference
variables on the right. -/
inductive Goal.Alike : Goal → Goal → Prop where
  | same {left other right : Ty} (sides : left.Same other) (varFree : right.VarFree) :
      Alike (.same left right) (.same other right)
  | arity (expected found : Nat) : Alike (.arity expected found) (.arity expected found)

namespace Goal.Alike

theorem replace {goal other : Goal} (alike : goal.Alike other) (v : TyVar) (image : Ty) :
    (goal.replace v image).Alike (other.replace v image) := by
  cases alike with
  | arity expected found => exact .arity expected found
  | @same left other right sides varFree =>
      have replaced : right.replace v image = right := varFree.assign _
      rw [Goal.replace, Goal.replace, replaced]
      exact .same (sides.assign fun w => Ty.Same.refl _) varFree

theorem ofApplications {leftHead otherHead rightHead : Ty} {leftArgs otherArgs rightArgs : List Ty}
    (sides : (Ty.app leftHead leftArgs).Same (.app otherHead otherArgs))
    (varFree : (Ty.app rightHead rightArgs).VarFree) :
    List.Forall₂ Alike (Goal.ofApplications leftHead leftArgs rightHead rightArgs)
      (Goal.ofApplications otherHead otherArgs rightHead rightArgs) := by
  obtain ⟨heads, args⟩ := Ty.Same.app_iff.mp sides
  simp only [Ty.VarFree, Ty.vars, Ty.varsList_eq_flatMap, List.append_eq_nil_iff,
    List.flatMap_eq_nil_iff] at varFree
  obtain ⟨headFree, argsFree⟩ := varFree
  rw [Goal.ofApplications, Goal.ofApplications, args.length_eq]
  refine .cons (.same heads headFree) (.cons (.arity _ _) ?_)
  induction args generalizing rightArgs with
  | nil => exact .nil
  | cons first rest ih =>
      cases rightArgs with
      | nil => exact .nil
      | cons right rights =>
          refine .cons (.same first (argsFree right List.mem_cons_self)) ?_
          apply ih
          · simp_all [Ty.Same.app_iff]
          · intro arg membership
            exact argsFree arg (List.mem_cons_of_mem _ membership)

/-- Alike goals take the same step: both split into alike goals, both assign the same
type, or both fail. -/
theorem step {goal other : Goal} (alike : goal.Alike other) :
    (∃ parts others, goal.step = .split parts ∧ other.step = .split others ∧
      List.Forall₂ Alike parts others) ∨
    (∃ v ty, goal.step = .assign v ty ∧ other.step = .assign v ty) ∨
    (∃ error otherError, goal.step = .fail error ∧ other.step = .fail otherError) := by
  cases alike with
  | arity expected found =>
      by_cases equal : expected = found
      · exact .inl ⟨[], [], if_pos equal, if_pos equal, .nil⟩
      · exact .inr (.inr ⟨_, _, if_neg equal, if_neg equal⟩)
  | @same left other right sides varFree =>
      cases left with
      | var v =>
          have absent : v ∉ right.vars := Ty.varFree_iff.mp varFree v
          have assigns : (Goal.same (.var v) right).step = .assign v right := by
            cases right with
            | var w => cases varFree
            | con | app | param | array => simp [Goal.step, Goal.sameStep, absent]
          cases other <;> cases sides
          exact .inr (.inl ⟨v, right, assigns, assigns⟩)
      | con constructor =>
          cases other <;> cases sides
          cases right with
          | var w => cases varFree
          | con found =>
              by_cases equal : constructor = found
              · exact .inl ⟨[], [], if_pos equal, if_pos equal, .nil⟩
              · exact .inr (.inr ⟨_, _, if_neg equal, if_neg equal⟩)
          | app | param | array => exact .inr (.inr ⟨_, _, rfl, rfl⟩)
      | app head args =>
          cases other with
          | var | con | param | array => cases sides
          | app otherHead otherArgs =>
              cases right with
              | var w => cases varFree
              | app rightHead rightArgs =>
                  exact .inl ⟨_, _, rfl, rfl, ofApplications sides varFree⟩
              | con | param | array => exact .inr (.inr ⟨_, _, rfl, rfl⟩)
      | param p =>
          cases other with
          | var | con | app | array => cases sides
          | param q =>
              have keys : p.key = q.key := by simpa [Ty.Same, Ty.erased] using sides
              cases right with
              | var w => cases varFree
              | param r =>
                  by_cases equal : p.key = r.key
                  · exact .inl ⟨[], [], if_pos equal, if_pos (keys.symm.trans equal), .nil⟩
                  · have differ : q.key ≠ r.key := fun same => equal (keys.trans same)
                    exact .inr (.inr ⟨_, _, if_neg equal, if_neg differ⟩)
              | con | app | array => exact .inr (.inr ⟨_, _, rfl, rfl⟩)
      | array element =>
          cases other with
          | var | con | app | param => cases sides
          | array otherElement =>
              have elements : element.Same otherElement := by
                simpa [Ty.Same, Ty.erased] using sides
              cases right with
              | var w => cases varFree
              | array rightElement =>
                  exact .inl ⟨_, _, rfl, rfl, .cons (.same elements varFree) .nil⟩
              | con | app | param => exact .inr (.inr ⟨_, _, rfl, rfl⟩)

end Goal.Alike

namespace Context

theorem solve_alike (context : Context) (goals : List Goal) {others : List Goal}
    (alike : List.Forall₂ Goal.Alike goals others) {learned : Context}
    (succeeds : context.solve goals = (.ok (), learned)) :
    context.solve others = (.ok (), learned) := by
  induction context, goals using solve_induction generalizing others with
  | done context =>
      cases alike
      exact succeeds
  | fail context goal rest error taken =>
      rw [solve_cons, taken] at succeeds
      cases succeeds
  | split context goal rest parts taken ih =>
      cases alike with
      | @cons _ other _ otherRest first later =>
          rcases first.step with ⟨_, otherParts, steps, otherSteps, partsAlike⟩ |
            ⟨v, ty, steps, -⟩ | ⟨error, _, steps, -⟩ <;> cases taken.symm.trans steps
          rw [solve_cons, taken] at succeeds
          rw [solve_cons, otherSteps]
          exact ih (List.rel_append partsAlike later) succeeds
  | assign context goal rest v ty taken ih =>
      cases alike with
      | @cons _ other _ otherRest first later =>
          rcases first.step with ⟨parts, _, steps, -⟩ | ⟨_, _, steps, otherSteps⟩ |
            ⟨error, _, steps, -⟩ <;> cases taken.symm.trans steps
          have laterAlike : List.Forall₂ Goal.Alike (rest.map (Goal.replace v ty))
              (otherRest.map (Goal.replace v ty)) := by
            rw [List.forall₂_map_left_iff, List.forall₂_map_right_iff]
            exact later.imp fun _ _ alike => alike.replace v ty
          simp only [solve_cons, taken] at succeeds
          simp only [solve_cons, otherSteps]
          by_cases isOpen : context.IsOpen v
          · rw [if_pos isOpen] at succeeds ⊢
            exact ih isOpen laterAlike succeeds
          · rw [if_neg isOpen] at succeeds
            cases succeeds
  | unite context goal rest v w taken ih =>
      cases alike with
      | @cons _ other _ otherRest first later =>
          rcases first.step with ⟨parts, _, steps, -⟩ | ⟨_, _, steps, -⟩ |
            ⟨error, _, steps, -⟩ <;> cases taken.symm.trans steps

/-- Unifications of alike equations learn the same. -/
theorem unify_alike {context learned : Context} {left other right : Ty}
    (sides : left.Same other) (varFree : right.VarFree)
    (succeeds : context.unify left right = (.ok (), learned)) :
    context.unify other right = (.ok (), learned) := by
  have sameStray : context.stray? left = context.stray? other := by
    rw [stray?, stray?, sides.vars_eq]
  have resolvedSides := context.resolve_same sides
  have resolvedFree : (context.resolve right).VarFree := by
    rw [context.resolve_of_varFree varFree]
    exact varFree
  rw [unify] at succeeds ⊢
  rw [← sameStray]
  cases stray : (context.stray? left).or (context.stray? right) with
  | some v =>
      rw [stray] at succeeds
      cases succeeds
  | none =>
      rw [stray] at succeeds
      exact solve_alike context _ (.cons (.same resolvedSides resolvedFree) .nil) succeeds

/-- Lists of alike equations learn the same. -/
theorem unifyAll_alike {context learned : Context} {equations others : List (Ty × Ty)}
    (alike : List.Forall₂ (fun equation other => equation.1.Same other.1 ∧
      equation.2 = other.2 ∧ equation.2.VarFree) equations others)
    (succeeds : context.unifyAll equations = (.ok (), learned)) :
    context.unifyAll others = (.ok (), learned) := by
  induction alike generalizing context with
  | nil => exact succeeds
  | @cons equation other rest otherRest first _ ih =>
      obtain ⟨left, right⟩ := equation
      obtain ⟨otherLeft, otherRight⟩ := other
      obtain ⟨sides, rfl, varFree⟩ := first
      rw [unifyAll] at succeeds ⊢
      rcases attempt : context.unify left right with ⟨outcome, next⟩
      rw [attempt] at succeeds
      cases outcome with
      | ok value =>
          rw [unify_alike sides varFree attempt]
          exact ih succeeds
      | error failure => cases succeeds
      | stray v => cases succeeds

end Context

end MethodGroups
