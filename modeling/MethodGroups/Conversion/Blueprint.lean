import MethodGroups.Conversion.Request
import MethodGroups.Hierarchy.Slots

/-!
# Blueprints of conversions

Everything that can go wrong with a conversion is decided before the receiver is
compiled.  What remains is a blueprint: the shape of the expression, the member
name, and the type arguments, all in script form.

The checks come in a fixed order, and the first one that fails gives the error:
the ids of the request, the usability of the method, the delegate type, the
expansion of params arrays, the use of the declaring type, the type arguments of
the method, and last what the shape needs.
-/

namespace MethodGroups

open Script

mutual

/-- The script form of a type. -/
def scriptType : Ty → Except Defect TypeRef
  | .con constructor => .ok (.named constructor)
  | .app (.con constructor) args => return .instantiated constructor (← scriptTypes args)
  | .app head args => .error (.noConstructor (.app head args))
  | .param p => .ok (.param p.name)
  | .array _ => .ok .array
  | .var v => .error (.unresolved (.var v))

/-- The script forms of a list of types. -/
def scriptTypes : List Ty → Except Defect (List TypeRef)
  | [] => .ok []
  | ty :: rest => return (← scriptType ty) :: (← scriptTypes rest)

end

/-- The shapes of converted method groups. -/
inductive Shape where
  /-- A member of a type. -/
  | static (owner : TypeRef)
  /-- The member that an ancestor supplies, bound to the current instance. -/
  | baseCall (ancestor : TypeRef)
  /-- A member of the receiver, bound to the receiver. -/
  | bound
  deriving Repr, Inhabited

/-- A conversion in which only the receiver is still open. -/
structure Blueprint where
  shape : Shape
  name : String
  typeArgs : List TypeRef
  /-- Whether the function gets the caller's `this` as its first argument. -/
  rebindsThis : Bool
  deriving Repr, Inhabited

namespace Environment

variable {Source : Type}

/-- The declaring type as the request uses it: with the given arguments, as an
ancestor of the current type, or else in its open form. -/
def declaringUse (env : Environment) (request : Request Source) (current declaring : TypeDef) :
    Outcome Cause Ty :=
  if request.declaringArgs.isEmpty then
    .ok ((env.index.ancestorUse? current declaring.id).getD declaring.selfTy)
  else if request.declaringArgs.length = declaring.typeParams.length then
    .ok (declaring.instantiate request.declaringArgs)
  else
    Defect.refuse (.typeArgCount declaring.qualified declaring.typeParams.length
      request.declaringArgs.length)

/-- The type arguments of the method: the given ones, or those read off the
delegate. -/
def typeArgs (env : Environment) (request : Request Source) (method : MethodDef)
    (declaring : Ty) : Outcome Cause (List Ty) :=
  if request.typeArgs.isEmpty then
    (env.index.inferTypeArgs method declaring.args request.delegate).mapError
      fun error => .internal (.inference error)
  else if request.typeArgs.length = method.typeParams.length then .ok request.typeArgs
  else
    Defect.refuse (.typeArgCount (env.index.qualifiedMember method) method.typeParams.length
      request.typeArgs.length)

/-- The type arguments in script form, none if the method has no type parameters
or its policy ignores them. -/
def scriptTypeArgs (env : Environment) (request : Request Source) (method : MethodDef)
    (policy : MethodPolicy) (declaring : Ty) : Outcome Cause (List TypeRef) :=
  if method.isGeneric && !policy.ignoreGenericArguments then do
    let args ← env.typeArgs request method declaring
    (Outcome.ofExcept (scriptTypes args)).mapError .internal
  else .ok []

/-- The shape of the conversion of a method. -/
def shape (env : Environment) (request : Request Source) (current : TypeDef)
    (method : MethodDef) (policy : MethodPolicy) (declaring : Ty) : Except Defect Shape :=
  if policy.isStatic then return .static (← scriptType declaring)
  else
    match request.receiver with
    | .base =>
        match env.index.baseTarget? current method with
        | some target => return .baseCall (← scriptType target.use)
        | none => .error (.noSupplier current.qualified (env.index.qualifiedMember method))
    | .static => .error (.noReceiver (env.index.qualifiedMember method))
    | _ => .ok .bound

/-- Check a request and decide everything about its conversion but the receiver. -/
def blueprint (env : Environment) (request : Request Source) : Outcome Cause Blueprint := do
  let method ← Outcome.ofOption (.internal (.unknownMethod request.method))
    (env.index.method? request.method)
  let current ← Outcome.ofOption (.internal (.unknownType request.current))
    (env.index.type? request.current)
  let policy := env.policies.method request.method
  if !policy.isUsable then
    Outcome.error (.notUsable (env.index.qualifiedMember method))
  else
    let delegate ← Outcome.ofOption (.internal (.unknownDelegate request.delegate))
      (env.index.defOf? request.delegate)
    let delegatePolicy := env.policies.delegate delegate.id
    if policy.expandParams && !delegatePolicy.expandParams then
      Outcome.error (.paramsExpansion (env.index.qualifiedMember method) delegate.qualified)
    else
      let declaring ← Outcome.ofOption (.internal (.unknownType method.declaring))
        (env.index.type? method.declaring)
      let use ← env.declaringUse request current declaring
      let typeArgs ← env.scriptTypeArgs request method policy use
      let shape ← (Outcome.ofExcept (env.shape request current method policy use)).mapError
        .internal
      return ⟨shape, policy.name, typeArgs, delegatePolicy.bindThisToFirstParameter⟩

end Environment

end MethodGroups
