import MethodGroups.Ty.Text
import MethodGroups.Unification.Context

/-!
# Unification

Two types are unified by taking them apart side by side: heads before arguments,
arguments from left to right.  An open variable is linked to another one or bound
to the type it meets, unless it occurs inside that type.  Type parameters are
rigid and only equal themselves.

The work still to do is a list of goals in which everything learned so far has
been replaced already.  Each step either takes a variable out of the open ones or
makes the goals smaller, which is why the procedure ends.

A failed unification keeps what it had learned before it failed.
-/

namespace MethodGroups

/-- Why two types cannot be made equal. -/
inductive UnifyError where
  /-- Two types that have to be equal start differently. -/
  | mismatch (expected found : Ty)
  /-- A variable occurs inside the type it would have to equal. -/
  | infiniteType (v : TyVar) (ty : Ty)
  /-- A constructor is applied to different numbers of arguments. -/
  | arityMismatch (expected found : Nat)
  deriving DecidableEq, Repr

namespace UnifyError

/-- The error in words. -/
def message : UnifyError → String
  | .mismatch expected found =>
      "type mismatch: expected `" ++ expected.text ++ "`, found `" ++ found.text ++ "`"
  | .infiniteType v ty =>
      "infinite type: `" ++ (Ty.var v).text ++ "` occurs in `" ++ ty.text ++ "`"
  | .arityMismatch expected found =>
      "arity mismatch: expected " ++ toString expected ++ " type arguments, found " ++
        toString found

end UnifyError

/-- One thing that unification still has to establish. -/
inductive Goal where
  /-- Two types have to be equal. -/
  | same (left right : Ty)
  /-- Two argument lists have to be of one length. -/
  | arity (expected found : Nat)
  deriving DecidableEq, Repr

namespace Goal

/-- The size of a goal. -/
def size : Goal → Nat
  | .same left right => left.size + right.size
  | .arity _ _ => 1

/-- The total size of a list of goals. -/
def totalSize : List Goal → Nat
  | [] => 0
  | goal :: rest => goal.size + totalSize rest

/-- Replace a variable by a type on both sides of a goal. -/
def replace (v : TyVar) (image : Ty) : Goal → Goal
  | .same left right => .same (left.replace v image) (right.replace v image)
  | .arity expected found => .arity expected found

/-- The goals that make two applications equal. -/
def ofApplications (leftHead : Ty) (leftArgs : List Ty) (rightHead : Ty)
    (rightArgs : List Ty) : List Goal :=
  .same leftHead rightHead :: .arity leftArgs.length rightArgs.length ::
    List.zipWith .same leftArgs rightArgs

theorem totalSize_zipWith_le (left right : List Ty) :
    totalSize (List.zipWith .same left right) ≤ Ty.sizeList left + Ty.sizeList right := by
  induction left generalizing right with
  | nil => simp [totalSize]
  | cons ty rest ih =>
      cases right with
      | nil => simp [totalSize]
      | cons other others =>
          have tail := ih others
          simp only [totalSize, List.zipWith_cons_cons, size, Ty.sizeList]
          omega

theorem totalSize_ofApplications_lt (leftHead : Ty) (leftArgs : List Ty) (rightHead : Ty)
    (rightArgs : List Ty) :
    totalSize (ofApplications leftHead leftArgs rightHead rightArgs) <
      size (.same (.app leftHead leftArgs) (.app rightHead rightArgs)) := by
  have args := totalSize_zipWith_le leftArgs rightArgs
  simp only [totalSize, ofApplications, size, Ty.size]
  omega

theorem totalSize_append (left right : List Goal) :
    totalSize (left ++ right) = totalSize left + totalSize right := by
  induction left with
  | nil => simp [totalSize]
  | cons goal rest ih =>
      simp only [List.cons_append, totalSize, ih]
      omega

theorem size_pos (goal : Goal) : 0 < goal.size := by
  cases goal with
  | same left right =>
      have := left.size_pos
      simp only [size]
      omega
  | arity => simp [size]

/-- What the first look at a goal asks for. -/
inductive Step where
  /-- The goal holds as soon as these goals do. -/
  | split (goals : List Goal)
  /-- Two different variables have to be equal. -/
  | unite (left right : TyVar)
  /-- A variable has to equal a type in which it does not occur. -/
  | assign (v : TyVar) (ty : Ty)
  /-- The goal cannot hold. -/
  | fail (error : UnifyError)
  deriving DecidableEq, Repr

/-- The step towards the equality of two types. -/
def sameStep : (left right : Ty) → Step
  | .var v, .var w => if v = w then .split [] else .unite v w
  | .var v, ty | ty, .var v =>
      if v ∈ ty.vars then .fail (.infiniteType v ty) else .assign v ty
  | .con left, .con right =>
      if left = right then .split [] else .fail (.mismatch (.con left) (.con right))
  | .param left, .param right =>
      if left.key = right.key then .split [] else .fail (.mismatch (.param left) (.param right))
  | .app leftHead leftArgs, .app rightHead rightArgs =>
      .split (ofApplications leftHead leftArgs rightHead rightArgs)
  | .array left, .array right => .split [.same left right]
  | left, right => .fail (.mismatch left right)

/-- The step towards a goal. -/
def step : Goal → Step
  | .same left right => sameStep left right
  | .arity expected found =>
      if expected = found then .split [] else .fail (.arityMismatch expected found)

/-- Splitting a goal leaves smaller goals. -/
theorem totalSize_lt_of_step {goal : Goal} {goals : List Goal}
    (splits : goal.step = .split goals) : totalSize goals < goal.size := by
  have trivially : ∀ {goal : Goal}, totalSize [] < goal.size := fun {goal} => goal.size_pos
  cases goal with
  | arity expected found =>
      simp only [step] at splits
      split at splits <;> cases splits
      exact trivially
  | same left right =>
      simp only [step] at splits
      unfold sameStep at splits
      split at splits <;> (try split at splits) <;> cases splits
      · exact trivially
      · exact trivially
      · exact trivially
      · exact totalSize_ofApplications_lt ..
      · simp only [totalSize, size, Ty.size]
        omega

end Goal

namespace Context

/-- Work through a list of goals, with all that the context knows replaced in
them beforehand.  Returns what was learned also when a goal fails. -/
def solve (context : Context) (goals : List Goal) : Outcome UnifyError Unit × Context :=
  match goals with
  | [] => (.ok (), context)
  | goal :: rest =>
      match _taken : goal.step with
      | .fail error => (.error error, context)
      | .split parts => solve context (parts ++ rest)
      | .assign v ty =>
          if _wasOpen : context.IsOpen v then
            solve (context.bind v ty) (rest.map (Goal.replace v ty))
          else (.stray v, context)
      | .unite v w =>
          let child := (context.orient v w).1
          let parent := (context.orient v w).2
          if _wasOpen : context.IsOpen child then
            solve (context.link child parent) (rest.map (Goal.replace child (.var parent)))
          else (.stray child, context)
termination_by (context.openCount, Goal.totalSize goals)
decreasing_by
  · apply Prod.Lex.right
    have smaller := Goal.totalSize_lt_of_step _taken
    rw [Goal.totalSize_append, Goal.totalSize]
    omega
  · exact Prod.Lex.left _ _ (openCount_bind_lt _ _wasOpen)
  · exact Prod.Lex.left _ _ (openCount_link_lt _ _wasOpen)

/-- Make two types equal.  A variable that the context did not create is found
before anything else happens. -/
def unify (context : Context) (left right : Ty) : Outcome UnifyError Unit × Context :=
  match (context.stray? left).or (context.stray? right) with
  | some v => (.stray v, context)
  | none => context.solve [.same (context.resolve left) (context.resolve right)]

/-- Make the two types of each pair equal, in order, up to the first failure. -/
def unifyAll (context : Context) : List (Ty × Ty) → Outcome UnifyError Unit × Context
  | [] => (.ok (), context)
  | (left, right) :: rest =>
      match context.unify left right with
      | (.ok (), learned) => learned.unifyAll rest
      | failed => failed

end Context

end MethodGroups
