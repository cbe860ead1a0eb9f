import MethodGroups.Index.Basic
import MethodGroups.Unification.Solve

/-!
# Inference of method type arguments

A generic method that is converted to a delegate without explicit type arguments
takes them from the delegate.  Each parameter type that mentions a type parameter
of the method is unified with the delegate's parameter type at the same position,
and every type parameter must come out as a type without variables.  Return types
play no part.
-/

namespace MethodGroups

/-- Why type arguments cannot be inferred. -/
inductive InferError where
  /-- Two parameter types cannot be made equal. -/
  | unify (error : UnifyError)
  /-- The method and the delegate have different numbers of parameters. -/
  | parameterCount (method delegate : Nat)
  /-- The target is not a delegate. -/
  | notADelegate (ty : Ty)
  /-- No parameter type determines this type parameter. -/
  | unbound (typeParam : String)
  deriving DecidableEq, Repr

/-- The error in words. -/
def InferError.message : InferError → String
  | .unify error => error.message
  | .parameterCount method delegate =>
      "method takes " ++ toString method ++ " parameters but the delegate passes " ++
        toString delegate
  | .notADelegate ty => "`" ++ ty.text ++ "` is not a delegate type"
  | .unbound typeParam => "cannot infer type argument for `" ++ typeParam ++ "`"

/-- The type parameters of a method, each with the variable of its position. -/
def MethodSig.varSubst (sig : MethodSig) : Subst :=
  sig.tyParams.map fun param => (param, .var param.key.index)

/-- The equations between the parameter types of a method and those of a
delegate.  Parameters that mention no type parameter of the method are left out. -/
def MethodSig.inferenceEquations (sig : MethodSig) (formals actuals : List Ty) :
    List (Ty × Ty) :=
  (formals.zip actuals).filterMap fun (formal, actual) =>
    if formal.mentionsMethodParams then some (formal.subst sig.varSubst, actual) else none

/-- The types that a context determines for variables, in order, each with the
name of the type parameter it stands for. -/
def Context.inferredTypes (context : Context) :
    List (TyVar × String) → Except InferError (List Ty)
  | [] => .ok []
  | (v, name) :: rest =>
      let ty := context.resolve (.var v)
      if ty.vars.isEmpty then do
        let others ← context.inferredTypes rest
        return ty :: others
      else .error (.unbound name)

namespace TypeIndex

/-- The signature with which a use of a delegate is invoked. -/
def delegateSignature (index : TypeIndex) (delegate : Ty) : Except InferError Signature :=
  match index.use? delegate with
  | some (type, args) =>
      match type.kind with
      | .delegate signature => .ok (signature.subst (type.argSubst args))
      | .ordinary => .error (.notADelegate delegate)
  | none => .error (.notADelegate delegate)

/-- The type arguments of a method whose declaring type is used with the given
arguments, read off the delegate it is converted to. -/
def inferTypeArgs (index : TypeIndex) (method : MethodDef) (declaringArgs : List Ty)
    (delegate : Ty) : Outcome InferError (List Ty) :=
  if method.isGeneric then do
    let formals := index.formals method declaringArgs
    let signature ← Outcome.ofExcept (index.delegateSignature delegate)
    if formals.length ≠ signature.params.length then
      Outcome.error (.parameterCount formals.length signature.params.length)
    else
      let equations := method.inferenceEquations formals signature.params
      let (outcome, context) :=
        (Context.ofSize method.typeParams.length).unifyAll equations
      outcome.mapError .unify
      let wanted := method.typeParams.mapIdx fun v name => (v, name)
      Outcome.ofExcept (context.inferredTypes wanted)
  else .ok []

end TypeIndex

end MethodGroups
