import MethodGroups.Proofs.Conversion.Blueprints

/-!
# Given type arguments

A request may give the type arguments of a generic method or leave them to inference.  They
show in a conversion only through their script forms, so what inference finds may as well be
written into the request.
-/

namespace MethodGroups

variable {Source State : Type}

namespace Request

/-- The request, with the given type arguments for the method. -/
def withTypeArgs (request : Request Source) (args : List Ty) : Request Source :=
  { request with typeArgs := args }

variable (request : Request Source) (args : List Ty)

@[simp] theorem method_withTypeArgs : (request.withTypeArgs args).method = request.method := rfl

@[simp] theorem current_withTypeArgs : (request.withTypeArgs args).current = request.current := rfl

@[simp] theorem delegate_withTypeArgs :
    (request.withTypeArgs args).delegate = request.delegate := rfl

@[simp] theorem receiver_withTypeArgs :
    (request.withTypeArgs args).receiver = request.receiver := rfl

@[simp] theorem span_withTypeArgs : (request.withTypeArgs args).span = request.span := rfl

@[simp] theorem typeArgs_withTypeArgs : (request.withTypeArgs args).typeArgs = args := rfl

end Request

namespace Environment

variable {env : Environment} {request : Request Source} {args : List Ty}

/-- No type argument of the method shows in the use of the declaring type. -/
@[simp] theorem declaringUse_withTypeArgs (current declaring : TypeDef) :
    env.declaringUse (request.withTypeArgs args) current declaring =
      env.declaringUse request current declaring := rfl

/-- No type argument of the method shows in the shape. -/
@[simp] theorem shape_withTypeArgs (current : TypeDef) (method : MethodDef)
    (policy : MethodPolicy) (use : Ty) :
    env.shape (request.withTypeArgs args) current method policy use =
      env.shape request current method policy use := rfl

variable {method : MethodDef} {use : Ty}

/-- Where inference finds the given arguments, they make no difference. -/
theorem scriptTypeArgs_withTypeArgs (noArgs : request.typeArgs = [])
    (arity : args.length = method.typeParams.length) {policy : MethodPolicy}
    (inferred : method.isGeneric = true → policy.ignoreGenericArguments = false →
      env.index.inferTypeArgs method use.args request.delegate = .ok args) :
    env.scriptTypeArgs (request.withTypeArgs args) method policy use =
      env.scriptTypeArgs request method policy use := by
  rw [scriptTypeArgs, scriptTypeArgs]
  split
  · next asked =>
    rw [Bool.and_eq_true, Bool.not_eq_true'] at asked
    have given : args.isEmpty = false := by
      have generic := asked.1
      rw [MethodSig.isGeneric, Bool.not_eq_true', List.isEmpty_eq_false_iff,
        ← List.length_pos_iff] at generic
      rw [List.isEmpty_eq_false_iff, ← List.length_pos_iff, arity]
      exact generic
    have same : env.typeArgs (request.withTypeArgs args) method use =
        env.typeArgs request method use := by
      rw [Environment.typeArgs, Environment.typeArgs, noArgs, inferred asked.1 asked.2]
      simp [given, arity, Outcome.mapError]
    rw [same]
  · rfl

/-- What a conversion does depends on its request only through the blueprint, the receiver
and the place. -/
theorem convert_withTypeArgs_of_blueprint
    (same : env.blueprint (request.withTypeArgs args) = env.blueprint request)
    (evaluator : Evaluator Source State) :
    env.convert evaluator (request.withTypeArgs args) = env.convert evaluator request := by
  rw [convert, convert, same, Request.receiver_withTypeArgs, Request.span_withTypeArgs]

section Inferred

variable (isMethod : env.index.method? request.method = some method)
variable {current : TypeDef} (isCurrent : env.index.type? request.current = some current)
variable {declaring : TypeDef} (isDeclaring : env.index.type? method.declaring = some declaring)
variable (used : env.declaringUse request current declaring = .ok use)
variable (noArgs : request.typeArgs = []) (arity : args.length = method.typeParams.length)

include isMethod isCurrent isDeclaring used noArgs arity

/-- What inference finds may as well be given. -/
theorem blueprint_withTypeArgs
    (inferred : method.isGeneric = true →
      (env.policies.method request.method).ignoreGenericArguments = false →
        env.index.inferTypeArgs method use.args request.delegate = .ok args) :
    env.blueprint (request.withTypeArgs args) = env.blueprint request := by
  have same : env.scriptTypeArgs (request.withTypeArgs args) method
        (env.policies.method request.method) use =
      env.scriptTypeArgs request method (env.policies.method request.method) use :=
    scriptTypeArgs_withTypeArgs noArgs arity inferred
  simp only [Environment.blueprint, Request.method_withTypeArgs, Request.current_withTypeArgs,
    Request.delegate_withTypeArgs, declaringUse_withTypeArgs, shape_withTypeArgs, isMethod,
    isCurrent, isDeclaring, used, same, Outcome.ofOption, Outcome.ok_bind]

/-- A conversion with inferred arguments is the one with these arguments given, which can be
computed without inference. -/
theorem convert_of_inferred
    (inferred : env.index.inferTypeArgs method use.args request.delegate = .ok args)
    (evaluator : Evaluator Source State) :
    env.convert evaluator request = env.convert evaluator (request.withTypeArgs args) := by
  have same := blueprint_withTypeArgs isMethod isCurrent isDeclaring used noArgs arity
    fun _ _ => inferred
  rw [convert_withTypeArgs_of_blueprint same]

end Inferred

end Environment

end MethodGroups
