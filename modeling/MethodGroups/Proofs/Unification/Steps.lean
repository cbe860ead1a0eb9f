import MethodGroups.Unification.Solve
import MethodGroups.Proofs.Unification.Solutions

/-!
# The steps of unification

Every step of unification keeps the assignments that meet the goals: a goal that is
split holds exactly if its parts hold, a variable that is linked or bound has to be
the same as what it meets, and a failing goal holds for no assignment.  Proofs about
the whole procedure follow its steps by `solve_induction`.
-/

namespace MethodGroups

namespace Goal

/-- The assignment makes the goal true. -/
def Holds (assignment : TyVar → Ty) : Goal → Prop
  | .same left right => (left.assign assignment).Same (right.assign assignment)
  | .arity expected found => expected = found

/-- The inference variables that a goal mentions. -/
def vars : Goal → List TyVar
  | .same left right => left.vars ++ right.vars
  | .arity _ _ => []

/-- A step does justice to a goal: it asks for no less and for no more. -/
def Step.Faithful (goal : Goal) : Step → Prop
  | .split parts =>
      (∀ part ∈ parts, ∀ v ∈ part.vars, v ∈ goal.vars) ∧
        ∀ assignment, goal.Holds assignment ↔ ∀ part ∈ parts, part.Holds assignment
  | .unite v w =>
      v ≠ w ∧ v ∈ goal.vars ∧ w ∈ goal.vars ∧
        ∀ assignment, goal.Holds assignment ↔ (assignment v).Same (assignment w)
  | .assign v ty =>
      v ∉ ty.vars ∧ v ∈ goal.vars ∧ (∀ w ∈ ty.vars, w ∈ goal.vars) ∧
        ∀ assignment, goal.Holds assignment ↔ (assignment v).Same (ty.assign assignment)
  | .fail _ => ∀ assignment, ¬ goal.Holds assignment

theorem zipWith_same (left right : List Ty) :
    List.zipWith Goal.same left right =
      (left.zip right).map fun pair => Goal.same pair.1 pair.2 := by
  rw [List.map_zip_eq_zipWith]
  rfl

/-- The goals for two applications hold if heads and arguments are the same. -/
theorem holds_ofApplications (assignment : TyVar → Ty) (leftHead : Ty) (leftArgs : List Ty)
    (rightHead : Ty) (rightArgs : List Ty) :
    (Goal.same (.app leftHead leftArgs) (.app rightHead rightArgs)).Holds assignment ↔
      ∀ part ∈ ofApplications leftHead leftArgs rightHead rightArgs, part.Holds assignment := by
  have args : List.Forall₂ Ty.Same (leftArgs.map (Ty.assign assignment))
        (rightArgs.map (Ty.assign assignment)) ↔
      leftArgs.length = rightArgs.length ∧
        ∀ part ∈ List.zipWith Goal.same leftArgs rightArgs, part.Holds assignment := by
    rw [List.forall₂_map_left_iff, List.forall₂_map_right_iff, List.forall₂_iff_zip,
      zipWith_same]
    simp only [List.forall_mem_map]
    constructor
    · intro holds
      rcases holds with ⟨lengths, pairs⟩
      exact ⟨lengths, fun pair membership => pairs membership⟩
    · intro holds
      rcases holds with ⟨lengths, pairs⟩
      exact ⟨lengths, fun {left right} membership => pairs (left, right) membership⟩
  simp only [Holds, Ty.assign, Ty.assignList_eq_map, Ty.Same.app_iff, args, ofApplications,
    List.forall_mem_cons]

theorem vars_ofApplications {leftHead rightHead : Ty} {leftArgs rightArgs : List Ty} :
    ∀ part ∈ ofApplications leftHead leftArgs rightHead rightArgs, ∀ v ∈ part.vars,
      v ∈ (Goal.same (.app leftHead leftArgs) (.app rightHead rightArgs)).vars := by
  intro part membership v occurs
  simp only [vars, Ty.vars, Ty.varsList_eq_flatMap, List.mem_append, List.mem_flatMap]
  simp only [ofApplications, List.mem_cons] at membership
  rcases membership with rfl | rfl | inArgs
  · rcases List.mem_append.mp occurs with inLeft | inRight
    · exact .inl (.inl inLeft)
    · exact .inr (.inl inRight)
  · cases occurs
  · rw [zipWith_same, List.mem_map] at inArgs
    obtain ⟨⟨left, right⟩, inZip, rfl⟩ := inArgs
    obtain ⟨leftArg, rightArg⟩ := List.of_mem_zip inZip
    rcases List.mem_append.mp occurs with inLeft | inRight
    · exact .inl (.inr ⟨left, leftArg, inLeft⟩)
    · exact .inr (.inr ⟨right, rightArg, inRight⟩)

theorem sameStep_faithful (left right : Ty) :
    (sameStep left right).Faithful (.same left right) := by
  simp only [sameStep]
  split
  case h_1 v w =>
    split
    case isTrue same => simp [Step.Faithful, Holds, Ty.assign, same, Ty.Same.refl]
    case isFalse differ => simp [Step.Faithful, Holds, Ty.assign, vars, Ty.vars, differ]
  case h_2 v differ =>
    split
    case isTrue occurs =>
      intro assignment
      exact Ty.not_same_of_occurs occurs (differ v)
    case isFalse absent =>
      refine ⟨absent, by simp [vars, Ty.vars], fun w occurs => by simp [vars, occurs], ?_⟩
      intro assignment
      exact Iff.rfl
  case h_3 v differ =>
    split
    case isTrue occurs =>
      intro assignment same
      exact Ty.not_same_of_occurs occurs (differ v) same.symm
    case isFalse absent =>
      refine ⟨absent, by simp [vars, Ty.vars], fun w occurs => by simp [vars, occurs], ?_⟩
      intro assignment
      exact ⟨Ty.Same.symm, Ty.Same.symm⟩
  case h_4 left right =>
    split
    case isTrue same => simp [Step.Faithful, Holds, same, Ty.Same.refl]
    case isFalse differ => simp [Step.Faithful, Holds, Ty.assign, Ty.Same, Ty.erased, differ]
  case h_5 left right =>
    split
    case isTrue same => simp [Step.Faithful, Holds, Ty.assign, Ty.Same, Ty.erased, same]
    case isFalse differ => simp [Step.Faithful, Holds, Ty.assign, Ty.Same, Ty.erased, differ]
  case h_6 leftHead leftArgs rightHead rightArgs =>
    exact ⟨vars_ofApplications, fun assignment => holds_ofApplications assignment ..⟩
  case h_7 left right =>
    simp [Step.Faithful, Holds, vars, Ty.assign, Ty.vars, Ty.Same, Ty.erased]
  case h_8 noVarLeft noVarRight _ noCons noParams noApps noArrays =>
    intro assignment same
    -- The constructors differ, and neither an assignment nor the erasure changes them.
    cases left <;> cases right <;>
      first
      | exact noVarLeft _ rfl
      | exact noVarRight _ rfl
      | exact noCons _ _ rfl rfl
      | exact noParams _ _ rfl rfl
      | exact noApps _ _ _ _ rfl rfl
      | exact noArrays _ _ rfl rfl
      | cases same

theorem step_faithful (goal : Goal) : goal.step.Faithful goal := by
  cases goal with
  | same left right => exact sameStep_faithful left right
  | arity expected found =>
      rw [step]
      split
      · next same => simp [Step.Faithful, Holds, same]
      · next differ => simp [Step.Faithful, Holds, differ]

/-! ## Which step a goal asks for -/

/-- How the equality of two types is split into parts. -/
inductive Splits : Ty → Ty → List Goal → Prop where
  | var (v : TyVar) : Splits (.var v) (.var v) []
  | con (constructor : TypeName) : Splits (.con constructor) (.con constructor) []
  | param {left right : TyParam} (keys : left.key = right.key) :
      Splits (.param left) (.param right) []
  | app (leftHead : Ty) (leftArgs : List Ty) (rightHead : Ty) (rightArgs : List Ty) :
      Splits (.app leftHead leftArgs) (.app rightHead rightArgs)
        (ofApplications leftHead leftArgs rightHead rightArgs)
  | array (left right : Ty) : Splits (.array left) (.array right) [.same left right]

theorem sameStep_eq_split_iff {left right : Ty} {parts : List Goal} :
    sameStep left right = .split parts ↔ Splits left right parts := by
  constructor
  · intro splits
    unfold sameStep at splits
    split at splits <;> (try split at splits) <;> cases splits
    case h_1.isTrue.refl v w same =>
      subst same
      exact .var v
    case h_4.isTrue.refl left right same =>
      subst same
      exact .con left
    case h_5.isTrue.refl keys => exact .param keys
    case h_6.refl => exact .app ..
    case h_7.refl => exact .array ..
  · intro splits
    cases splits with
    | var v => simp [sameStep]
    | con constructor => simp [sameStep]
    | param keys => simp [sameStep, keys]
    | app leftHead leftArgs rightHead rightArgs => rfl
    | array left right => rfl

theorem sameStep_eq_unite_iff {left right : Ty} {v w : TyVar} :
    sameStep left right = .unite v w ↔ left = .var v ∧ right = .var w ∧ v ≠ w := by
  constructor
  · intro unites
    unfold sameStep at unites
    split at unites <;> (try split at unites) <;> cases unites
    exact ⟨rfl, rfl, by assumption⟩
  · rintro ⟨rfl, rfl, differ⟩
    simp [sameStep, differ]

/-- A variable is bound to what is on the other side, if this is no variable and does not
contain it. -/
theorem sameStep_eq_assign_iff {left right : Ty} {v : TyVar} {ty : Ty} :
    sameStep left right = .assign v ty ↔
      (left = .var v ∧ right = ty ∨ left = ty ∧ right = .var v) ∧ (∀ w, ty ≠ .var w) ∧
        v ∉ ty.vars := by
  constructor
  · intro assigns
    unfold sameStep at assigns
    split at assigns <;> (try split at assigns) <;> cases assigns
    case h_2.isFalse.refl proper absent => exact ⟨.inl ⟨rfl, rfl⟩, proper, absent⟩
    case h_3.isFalse.refl proper absent => exact ⟨.inr ⟨rfl, rfl⟩, proper, absent⟩
  · rintro ⟨⟨rfl, rfl⟩ | ⟨rfl, rfl⟩, proper, absent⟩
    · cases right with
      | var w => exact (proper w rfl).elim
      | con | app | param | array => simp [sameStep, absent]
    · cases left with
      | var w => exact (proper w rfl).elim
      | con | app | param | array => simp [sameStep, absent]

/-- A replacement that the assignment makes anyway does not change a goal. -/
theorem holds_replace {assignment : TyVar → Ty} {v : TyVar} {image : Ty}
    (same : (assignment v).Same (image.assign assignment)) (goal : Goal) :
    (goal.replace v image).Holds assignment ↔ goal.Holds assignment := by
  cases goal with
  | same left right =>
      have leftSame := Ty.Same.assign_replace same left
      have rightSame := Ty.Same.assign_replace same right
      constructor
      · intro holds
        exact leftSame.symm.trans (Ty.Same.trans holds rightSame)
      · intro holds
        exact leftSame.trans (Ty.Same.trans holds rightSame.symm)
  | arity expected found => exact Iff.rfl

theorem mem_vars_replace {goal : Goal} {v w : TyVar} {image : Ty}
    (occurs : w ∈ (goal.replace v image).vars) :
    (w ∈ goal.vars ∧ w ≠ v) ∨ w ∈ image.vars := by
  cases goal with
  | same left right =>
      rw [vars, List.mem_append]
      rcases List.mem_append.mp occurs with inLeft | inRight
      · rcases Ty.mem_vars_replace inLeft with ⟨inSide, other⟩ | inImage
        · exact .inl ⟨.inl inSide, other⟩
        · exact .inr inImage
      · rcases Ty.mem_vars_replace inRight with ⟨inSide, other⟩ | inImage
        · exact .inl ⟨.inr inSide, other⟩
        · exact .inr inImage
  | arity expected found => cases occurs

end Goal

namespace Context

/-! ## One step of the procedure -/

theorem solve_nil (context : Context) : context.solve [] = (.ok (), context) := by
  rw [solve]

theorem solve_cons (context : Context) (goal : Goal) (rest : List Goal) :
    context.solve (goal :: rest) =
      match goal.step with
      | .fail error => (.error error, context)
      | .split parts => context.solve (parts ++ rest)
      | .assign v ty =>
          if context.IsOpen v then (context.bind v ty).solve (rest.map (Goal.replace v ty))
          else (.stray v, context)
      | .unite v w =>
          let (child, parent) := context.orient v w
          if context.IsOpen child then
            (context.link child parent).solve (rest.map (Goal.replace child (.var parent)))
          else (.stray child, context) := by
  rw [solve]
  split <;> simp [*]

/-- Induction along the procedure: over the steps that it takes before it ends. -/
theorem solve_induction {motive : Context → List Goal → Prop}
    (done : ∀ context, motive context [])
    (fail : ∀ context goal rest error, goal.step = .fail error → motive context (goal :: rest))
    (split : ∀ context goal rest parts, goal.step = .split parts →
      motive context (parts ++ rest) → motive context (goal :: rest))
    (assign : ∀ context goal rest v ty, goal.step = .assign v ty →
      (context.IsOpen v → motive (context.bind v ty) (rest.map (Goal.replace v ty))) →
        motive context (goal :: rest))
    (unite : ∀ context goal rest v w, goal.step = .unite v w →
      (∀ child parent, context.orient v w = (child, parent) → context.IsOpen child →
        motive (context.link child parent) (rest.map (Goal.replace child (.var parent)))) →
        motive context (goal :: rest))
    (context : Context) (goals : List Goal) : motive context goals := by
  induction context, goals using solve.induct with
  | case1 context => exact done context
  | case2 context goal rest error taken => exact fail context goal rest error taken
  | case3 context goal rest parts taken ih => exact split context goal rest parts taken ih
  | case4 context goal rest v ty taken isOpen ih =>
      exact assign context goal rest v ty taken fun _ => by simpa using ih
  | case5 context goal rest v ty taken closed =>
      exact assign context goal rest v ty taken fun isOpen => (closed isOpen).elim
  | case6 context goal rest v w taken _ _ isOpen ih =>
      apply unite context goal rest v w taken
      intro child parent oriented _
      have ends : (context.orient v w).1 = child ∧ (context.orient v w).2 = parent := by
        rw [oriented]
        exact ⟨rfl, rfl⟩
      obtain ⟨rfl, rfl⟩ := ends
      simpa using ih
  | case7 context goal rest v w taken _ closed =>
      apply unite context goal rest v w taken
      intro child parent oriented isOpen
      have isChild : (context.orient v w).1 = child := by rw [oriented]
      subst isChild
      exact (closed isOpen).elim

/-! ## Runs of a known length -/

/-- The procedure, given up after a number of steps.  It is there to compute what becomes of
given goals. -/
def solveFor : Nat → Context → List Goal → Option (Outcome UnifyError Unit × Context)
  | 0, _, _ => none
  | _ + 1, context, [] => some (.ok (), context)
  | steps + 1, context, goal :: rest =>
      match goal.step with
      | .fail error => some (.error error, context)
      | .split parts => context.solveFor steps (parts ++ rest)
      | .assign v ty =>
          if context.IsOpen v then
            (context.bind v ty).solveFor steps (rest.map (Goal.replace v ty))
          else some (.stray v, context)
      | .unite v w =>
          let (child, parent) := context.orient v w
          if context.IsOpen child then
            (context.link child parent).solveFor steps
              (rest.map (Goal.replace child (.var parent)))
          else some (.stray child, context)

/-- What ends within a number of steps ends in the same way without the limit. -/
theorem solve_of_solveFor (steps : Nat) {context : Context} {goals : List Goal}
    {answer : Outcome UnifyError Unit × Context}
    (ends : context.solveFor steps goals = some answer) : context.solve goals = answer := by
  induction steps generalizing context goals with
  | zero => cases ends
  | succ steps ih =>
      cases goals with
      | nil =>
          cases ends
          exact context.solve_nil
      | cons goal rest =>
          rw [solveFor] at ends
          rw [solve_cons]
          cases taken : goal.step with
          | fail error =>
              rw [taken] at ends
              exact Option.some.inj ends
          | split parts =>
              rw [taken] at ends
              exact ih ends
          | assign v ty =>
              simp only [taken] at ends ⊢
              split at ends
              · next isOpen => exact (if_pos isOpen).trans (ih ends)
              · next closed => exact (if_neg closed).trans (Option.some.inj ends)
          | unite v w =>
              simp only [taken] at ends ⊢
              split at ends
              · next isOpen => exact (if_pos isOpen).trans (ih ends)
              · next closed => exact (if_neg closed).trans (Option.some.inj ends)

/-- Unification, given up after a number of steps. -/
def unifyFor (steps : Nat) (context : Context) (left right : Ty) :
    Option (Outcome UnifyError Unit × Context) :=
  match (context.stray? left).or (context.stray? right) with
  | some v => some (.stray v, context)
  | none => context.solveFor steps [.same (context.resolve left) (context.resolve right)]

theorem unify_of_unifyFor (steps : Nat) {context : Context} {left right : Ty}
    {answer : Outcome UnifyError Unit × Context}
    (ends : context.unifyFor steps left right = some answer) :
    context.unify left right = answer := by
  rw [unifyFor] at ends
  rw [unify]
  cases met : (context.stray? left).or (context.stray? right) with
  | some v =>
      rw [met] at ends
      exact Option.some.inj ends
  | none =>
      rw [met] at ends
      exact solve_of_solveFor steps ends

/-- The unification of pairs of types, given up if a pair takes more than a number of steps. -/
def unifyAllFor (steps : Nat) (context : Context) :
    List (Ty × Ty) → Option (Outcome UnifyError Unit × Context)
  | [] => some (.ok (), context)
  | (left, right) :: rest =>
      match context.unifyFor steps left right with
      | some (.ok (), learned) => learned.unifyAllFor steps rest
      | ended => ended

theorem unifyAll_of_unifyAllFor (steps : Nat) {context : Context} {equations : List (Ty × Ty)}
    {answer : Outcome UnifyError Unit × Context}
    (ends : context.unifyAllFor steps equations = some answer) :
    context.unifyAll equations = answer := by
  induction equations generalizing context with
  | nil => exact Option.some.inj ends
  | cons equation rest ih =>
      obtain ⟨left, right⟩ := equation
      rw [unifyAllFor] at ends
      rw [unifyAll]
      split at ends
      · next learned unifies =>
        rw [unify_of_unifyFor steps unifies]
        exact ih ends
      · next fails =>
        rw [unify_of_unifyFor steps ends]
        split
        · next learned =>
          exact (fails learned ends).elim
        · rfl

end Context

end MethodGroups
