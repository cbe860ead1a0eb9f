import MethodGroups.Conversion.Convert

/-!
# Accepted requests

A request that passes every check has a blueprint.  `Accepted` keeps what the checks
found on the way, each with the equation that says so, so that proofs about accepted
requests need not follow the order of the checks again.
-/

namespace MethodGroups

variable {Source State : Type}

/-- What the checks of an accepted request found. -/
structure Accepted (env : Environment) (request : Request Source) where
  method : MethodDef
  current : TypeDef
  delegate : TypeDef
  declaring : TypeDef
  use : Ty
  typeArgs : List Script.TypeRef
  shape : Shape
  isMethod : env.index.method? request.method = some method
  isCurrent : env.index.type? request.current = some current
  usable : (env.policies.method request.method).isUsable = true
  isDelegate : env.index.defOf? request.delegate = some delegate
  expandsAlike : (env.policies.method request.method).expandParams = true →
    (env.policies.delegate delegate.id).expandParams = true
  isDeclaring : env.index.type? method.declaring = some declaring
  isUse : env.declaringUse request current declaring = .ok use
  isTypeArgs : env.scriptTypeArgs request method (env.policies.method request.method) use =
    .ok typeArgs
  isShape : env.shape request current method (env.policies.method request.method) use =
    .ok shape

/-- The blueprint of an accepted request. -/
def Accepted.blueprint {env : Environment} {request : Request Source}
    (accepted : Accepted env request) : Blueprint :=
  ⟨accepted.shape, (env.policies.method request.method).name, accepted.typeArgs,
    (env.policies.delegate accepted.delegate.id).bindThisToFirstParameter⟩

namespace Accepted

variable {env : Environment} {request : Request Source}

/-- The shape of an accepted request, with what decides it: a policy that makes the method
static, then a receiver `base`.  Without either the method is bound, so a receiver is given. -/
inductive Shaped (accepted : Accepted env request) : Shape → Prop where
  | static {owner : Script.TypeRef}
      (isStatic : (env.policies.method request.method).isStatic = true)
      (written : scriptType accepted.use = .ok owner) : Shaped accepted (.static owner)
  | baseCall {target : BaseTarget} {ancestor : Script.TypeRef}
      (nonStatic : (env.policies.method request.method).isStatic = false)
      (isBase : request.receiver = .base)
      (supplies : env.index.baseTarget? accepted.current accepted.method = some target)
      (written : scriptType target.use = .ok ancestor) : Shaped accepted (.baseCall ancestor)
  | bound (nonStatic : (env.policies.method request.method).isStatic = false)
      (notBase : request.receiver ≠ .base) (given : request.receiver ≠ .static) :
      Shaped accepted .bound

theorem shaped (accepted : Accepted env request) : accepted.Shaped accepted.shape := by
  have isShape := accepted.isShape
  rw [Environment.shape] at isShape
  split at isShape
  · next isStatic =>
    cases written : scriptType accepted.use with
    | error defect =>
        rw [written] at isShape
        cases isShape
    | ok owner =>
        rw [written] at isShape
        rw [← Except.ok.inj isShape]
        exact .static isStatic written
  · next instanceMember =>
    have nonStatic := Bool.eq_false_iff.mpr instanceMember
    split at isShape
    · next isBase =>
      cases supplies : env.index.baseTarget? accepted.current accepted.method with
      | none =>
          rw [supplies] at isShape
          cases isShape
      | some target =>
          cases written : scriptType target.use with
          | error defect =>
              simp only [supplies, written] at isShape
              cases isShape
          | ok ancestor =>
              simp only [supplies, written] at isShape
              rw [← Except.ok.inj isShape]
              exact .baseCall nonStatic isBase supplies written
    · cases isShape
    · next notBase given =>
      rw [← Except.ok.inj isShape]
      exact .bound nonStatic notBase given

end Accepted

namespace Environment

variable {env : Environment} {request : Request Source}

/-- A request has a blueprint exactly if it is accepted. -/
theorem blueprint_eq_ok_iff {blueprint : Blueprint} :
    env.blueprint request = .ok blueprint ↔
      ∃ accepted : Accepted env request, accepted.blueprint = blueprint := by
  constructor
  · intro succeeds
    simp only [Environment.blueprint, Outcome.bind_eq_ok_iff, Outcome.ofOption_eq_ok_iff]
      at succeeds
    obtain ⟨method, isMethod, current, isCurrent, succeeds⟩ := succeeds
    split at succeeds
    case isTrue => cases succeeds
    case isFalse usable =>
      simp only [Outcome.bind_eq_ok_iff, Outcome.ofOption_eq_ok_iff] at succeeds
      obtain ⟨delegate, isDelegate, succeeds⟩ := succeeds
      split at succeeds
      case isTrue => cases succeeds
      case isFalse expandsAlike =>
        simp only [Outcome.bind_eq_ok_iff, Outcome.ofOption_eq_ok_iff,
          Outcome.mapError_eq_ok_iff, Outcome.ofExcept_eq_ok_iff] at succeeds
        obtain ⟨declaring, isDeclaring, use, isUse, typeArgs, isTypeArgs, shape, isShape, same⟩ :=
          succeeds
        cases same
        exact ⟨{
          method, current, delegate, declaring, use, typeArgs, shape, isMethod, isCurrent,
          isDelegate, isDeclaring, isUse, isTypeArgs, isShape
          usable := by simpa using usable
          expandsAlike := by simpa using expandsAlike }, rfl⟩
  · intro holds
    rcases holds with ⟨accepted, rfl⟩
    simp [Environment.blueprint, accepted.isMethod, accepted.isCurrent, accepted.isDelegate,
      accepted.isDeclaring, accepted.isUse, accepted.isTypeArgs, accepted.isShape,
      accepted.usable, Outcome.ofOption, Outcome.ofExcept, Outcome.mapError,
      Accepted.blueprint]
    exact accepted.expandsAlike

/-- A conversion builds the blueprint of the request. -/
theorem convert_eq_ok_iff {evaluator : Evaluator Source State} {state after : State}
    {conversion : Conversion} :
    env.convert evaluator request state = (.ok conversion, after) ↔
      ∃ blueprint, env.blueprint request = .ok blueprint ∧
        blueprint.build evaluator request.receiver state = (conversion, after) := by
  rw [convert]
  cases env.blueprint request with
  | ok blueprint =>
      have run : (do
            let conversion ← blueprint.build evaluator request.receiver
            return .ok conversion : StateM State (Outcome ConversionError Conversion)) state =
          (.ok (blueprint.build evaluator request.receiver state).1,
            (blueprint.build evaluator request.receiver state).2) := rfl
      rcases built : blueprint.build evaluator request.receiver state with ⟨result, next⟩
      rw [built] at run
      simp only [run, Outcome.ok.injEq, exists_eq_left', built]
      constructor
      · intro equal
        cases equal
        rfl
      · intro equal
        cases equal
        rfl
  | error cause =>
      constructor
      · intro impossible
        cases impossible
      · intro holds
        rcases holds with ⟨blueprint, impossible, -⟩
        cases impossible
  | stray v =>
      constructor
      · intro impossible
        cases impossible
      · intro holds
        rcases holds with ⟨blueprint, impossible, -⟩
        cases impossible

end Environment

end MethodGroups
