import MethodGroups.Proofs.Unification.MostGeneral

/-!
# Where equations stray

A variable that a context never created ends a unification without an answer.  Of equations
one after the other, such a variable is met exactly if those before it have a common solution:
otherwise one of them fails first, and the variable is never looked at.
-/

namespace MethodGroups.Context

/-- The first variable of two types, from left to right, that the context did not create. -/
def strayOf? (context : Context) (left right : Ty) : Option TyVar :=
  (left.vars ++ right.vars).find? fun v => context.size ≤ v

theorem unify_of_strayOf? {context : Context} {left right : Ty} {v : TyVar}
    (strays : context.strayOf? left right = some v) :
    context.unify left right = (.stray v, context) := by
  rw [strayOf?, List.find?_append] at strays
  rw [unify, stray?, stray?, strays]

theorem knows_of_strayOf?_eq_none {context : Context} {left right : Ty}
    (nothing : context.strayOf? left right = none) :
    context.Knows left ∧ context.Knows right := by
  rw [strayOf?, List.find?_append, Option.or_eq_none_iff] at nothing
  exact nothing.imp stray?_eq_none_iff.mp stray?_eq_none_iff.mp

theorem strayOf?_eq_none_of_knows {context : Context} {left right : Ty}
    (knowsLeft : context.Knows left) (knowsRight : context.Knows right) :
    context.strayOf? left right = none := by
  rw [strayOf?, List.find?_append, Option.or_eq_none_iff]
  exact ⟨stray?_eq_none_iff.mpr knowsLeft, stray?_eq_none_iff.mpr knowsRight⟩

/-- The equations before some equation mention no unknown variable and have a solution that
the context allows, and the variable is the first unknown one of this equation. -/
def Strays (context : Context) (equations : List (Ty × Ty)) (v : TyVar) : Prop :=
  ∃ earlier left right later, equations = earlier ++ (left, right) :: later ∧
    (∀ equation ∈ earlier, context.Knows equation.1 ∧ context.Knows equation.2) ∧
    (∃ assignment, context.Respects assignment ∧ ∀ equation ∈ earlier,
      (equation.1.assign assignment).Same (equation.2.assign assignment)) ∧
    context.strayOf? left right = some v

section Cons

variable {context learned : Context} {left right : Ty} {rest : List (Ty × Ty)} {v : TyVar}

/-- An unknown variable of the first equation is met before anything else happens. -/
theorem strays_cons_of_strayOf? (triangular : context.Triangular) {w : TyVar}
    (first : context.strayOf? left right = some w) :
    context.Strays ((left, right) :: rest) v ↔ w = v := by
  constructor
  · intro strays
    obtain ⟨earlier, left', right', later, split, known, -, found⟩ := strays
    cases earlier with
    | nil =>
        cases split
        exact Option.some.inj (first.symm.trans found)
    | cons equation earlier =>
        cases split
        obtain ⟨knowsLeft, knowsRight⟩ := known _ List.mem_cons_self
        rw [strayOf?_eq_none_of_knows knowsLeft knowsRight] at first
        cases first
  · intro same
    subst same
    exact ⟨[], left, right, rest, rfl, by simp, ⟨_, triangular.respects_resolve .var, by simp⟩,
      first⟩

/-- If the first equation strays nowhere, the others stray among the solutions of it. -/
theorem strays_cons_of_knows (knowsLeft : context.Knows left) (knowsRight : context.Knows right) :
    context.Strays ((left, right) :: rest) v ↔
      ∃ earlier left' right' later, rest = earlier ++ (left', right') :: later ∧
        (∀ equation ∈ earlier, context.Knows equation.1 ∧ context.Knows equation.2) ∧
        (∃ assignment, (context.Respects assignment ∧
            (left.assign assignment).Same (right.assign assignment)) ∧
          ∀ equation ∈ earlier,
            (equation.1.assign assignment).Same (equation.2.assign assignment)) ∧
        context.strayOf? left' right' = some v := by
  constructor
  · intro strays
    obtain ⟨earlier, left', right', later, split, known, ⟨assignment, respects, solves⟩, found⟩ :=
      strays
    cases earlier with
    | nil =>
        cases split
        rw [strayOf?_eq_none_of_knows knowsLeft knowsRight] at found
        cases found
    | cons equation earlier =>
        cases split
        rw [List.forall_mem_cons] at known solves
        exact ⟨earlier, left', right', later, rfl, known.2,
          ⟨assignment, ⟨respects, solves.1⟩, solves.2⟩, found⟩
  · intro holds
    obtain ⟨earlier, left', right', later, rfl, known, ⟨assignment, ⟨respects, same⟩, solves⟩,
      found⟩ := holds
    refine ⟨(left, right) :: earlier, left', right', later, rfl, ?_, ⟨assignment, respects, ?_⟩,
      found⟩
    · exact List.forall_mem_cons.mpr ⟨⟨knowsLeft, knowsRight⟩, known⟩
    · exact List.forall_mem_cons.mpr ⟨same, solves⟩

end Cons

/-- Equations are left without an answer exactly where they stray. -/
theorem unifyAll_eq_stray_iff {context : Context} (triangular : context.Triangular)
    (equations : List (Ty × Ty)) (v : TyVar) :
    (context.unifyAll equations).1 = .stray v ↔ context.Strays equations v := by
  induction equations generalizing context with
  | nil =>
      rw [unifyAll]
      constructor
      · intro impossible
        cases impossible
      · intro strays
        obtain ⟨earlier, left, right, later, impossible, -⟩ := strays
        simp at impossible
  | cons equation rest ih =>
      obtain ⟨left, right⟩ := equation
      rw [unifyAll]
      cases first : context.strayOf? left right with
      | some w =>
          rw [unify_of_strayOf? first, strays_cons_of_strayOf? triangular first]
          exact ⟨Outcome.stray.inj, congrArg _⟩
      | none =>
          obtain ⟨knowsLeft, knowsRight⟩ := knows_of_strayOf?_eq_none first
          have settles := unify_settles triangular knowsLeft knowsRight
          rw [strays_cons_of_knows knowsLeft knowsRight]
          rcases attempt : context.unify left right with ⟨outcome, learned⟩
          rw [attempt] at settles
          rcases settles.settled with ⟨succeeds, exactly⟩ | ⟨⟨error, fails⟩, none⟩
          · cases succeeds
            -- What was learned allows exactly the solutions of the first equation.
            have sameSize : learned.size = context.size := settles.sameSize
            simp only [ih settles.triangular, Strays, exactly, Knows, strayOf?, sameSize]
          · cases fails
            constructor
            · intro impossible
              cases impossible
            · intro holds
              obtain ⟨-, -, -, -, -, -, ⟨assignment, ⟨respects, same⟩, -⟩, -⟩ := holds
              exact (none assignment respects same).elim

end MethodGroups.Context
