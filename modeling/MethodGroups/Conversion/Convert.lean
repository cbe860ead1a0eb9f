import MethodGroups.Conversion.Blueprint

/-!
# Conversion of method groups

A conversion first decides its blueprint and then builds the expression, which
cannot fail.  Only building uses the evaluator, so a failed conversion leaves its
state as it was.
-/

namespace MethodGroups

open Script

variable {Source State : Type}

/-- A method with its type arguments, or the method alone if there are none. -/
def withTypeArgs (method : Expr) (typeArgs : List TypeRef) : Expr :=
  if typeArgs.isEmpty then method else .instantiateMethod method typeArgs

namespace Blueprint

/-- Build the expression of a blueprint before the first parameter is rebound. -/
def assemble (blueprint : Blueprint) (evaluator : Evaluator Source State)
    (receiver : Receiver Source) : StateM State Conversion :=
  match blueprint.shape with
  | .static owner =>
      let member := Expr.member (.typeRef owner) blueprint.name
      return ⟨[], withTypeArgs member blueprint.typeArgs⟩
  | .baseCall ancestor =>
      return ⟨[], .bindBaseCall ancestor blueprint.name blueprint.typeArgs .self⟩
  | .bound => do
      let plan ← evaluator.plan receiver
      let subject := plan.value?.getD .self
      let member := Expr.member subject blueprint.name
      return ⟨plan.prerequisites, .bind (withTypeArgs member blueprint.typeArgs) subject⟩

/-- Build the expression of a blueprint. -/
def build (blueprint : Blueprint) (evaluator : Evaluator Source State)
    (receiver : Receiver Source) : StateM State Conversion := do
  let conversion ← blueprint.assemble evaluator receiver
  if blueprint.rebindsThis then
    return { conversion with expr := .bindFirstParameterToThis conversion.expr }
  else return conversion

end Blueprint

namespace Environment

/-- Convert a method group, or say why it cannot be converted. -/
def convert (env : Environment) (evaluator : Evaluator Source State)
    (request : Request Source) : StateM State (Outcome ConversionError Conversion) :=
  match env.blueprint request with
  | .ok blueprint => do
      let conversion ← blueprint.build evaluator request.receiver
      return .ok conversion
  | .error cause => return .error ⟨cause, request.span⟩
  | .stray v => return .stray v

/-- Convert a method group and enter a failure at the end of a list of errors. -/
def convertReporting (env : Environment) (evaluator : Evaluator Source State)
    (request : Request Source) :
    StateM (State × List ConversionError) (Outcome ConversionError Conversion) :=
  fun (state, errors) =>
    match env.convert evaluator request state with
    | (.error error, state) => (.error error, state, errors ++ [error])
    | (outcome, state) => (outcome, state, errors)

end Environment

end MethodGroups
