import MethodGroups.Proofs.Conversion.Receivers
import MethodGroups.Proofs.Conversion.Scope
import MethodGroups.Proofs.Conversion.TypeArguments

/-!
# The numbers of type arguments

At run time nothing checks how many arguments a generic type or a generic method is applied
to, so converted code has to get the numbers right.  The type arguments of the method are
given or inferred, one for each of its type parameters.  The types come from uses of
definitions, and a use has one argument for each type parameter of its definition, whether
the walk through the ancestors meets it, the request gives its arguments, or it is the open
form.
-/

namespace MethodGroups

namespace Script

/-- The name that a reference to a type mentions, and the arguments it is applied to. -/
def TypeRef.head? : TypeRef → Option (TypeName × List TypeRef)
  | .named constructor => some (constructor, [])
  | .instantiated generic args => some (generic, args)
  | .param _ | .array => none

namespace Expr

/-- The type arguments of the method that is converted. -/
def methodTypeArgs : Expr → List TypeRef
  | .instantiateMethod _ args | .bindBaseCall _ _ args _ => args
  | .bind method _ => method.methodTypeArgs
  | .bindFirstParameterToThis function => function.methodTypeArgs
  | _ => []

/-- The type whose member is converted, unless the member is read from a receiver. -/
def owner? : Expr → Option TypeRef
  | .member (.typeRef owner) _ | .bindBaseCall owner _ _ _ => some owner
  | .instantiateMethod method _ => method.owner?
  | .bindFirstParameterToThis function => function.owner?
  | _ => none

/-- Every method in the expression that is instantiated is instantiated with these type
arguments, and with one at least. -/
def InstantiatesOnly (expr : Expr) (typeArgs : List TypeRef) : Prop :=
  ∀ method args, (Expr.instantiateMethod method args).IsPartOf expr → args = typeArgs ∧ args ≠ []

theorem instantiatesOnly_of_isPure {expr : Expr} (isPure : expr.isPure = true)
    (typeArgs : List TypeRef) : expr.InstantiatesOnly typeArgs := by
  intro method args isPart
  rw [← (isPartOf_of_isPure isPure).mp isPart] at isPure
  cases isPure

/-- What holds of the direct parts of an expression and of itself holds throughout it. -/
theorem InstantiatesOnly.of_parts {whole : Expr} {typeArgs : List TypeRef}
    (ownArgs : ∀ method args, whole = .instantiateMethod method args →
      args = typeArgs ∧ args ≠ [])
    (only : ∀ direct ∈ whole.parts, direct.InstantiatesOnly typeArgs) :
    whole.InstantiatesOnly typeArgs := by
  intro method args isPart
  rcases isPartOf_iff.mp isPart with isWhole | ⟨direct, isDirect, inDirect⟩
  · exact ownArgs method args isWhole.symm
  · exact only direct isDirect method args inDirect

end Expr

end Script

open Script

variable {Source State : Type}

/-- The reference names the definition and has one argument for each of its type parameters. -/
def TypeDef.IsWritten (type : TypeDef) (ref : TypeRef) : Prop :=
  ∃ args, ref.head? = some (type.constructor, args) ∧ args.length = type.typeParams.length

/-! ## Types in script form -/

/-- The script forms of types are as many as the types. -/
theorem length_of_scriptTypes {types : List Ty} {refs : List TypeRef}
    (written : scriptTypes types = .ok refs) : refs.length = types.length := by
  induction types generalizing refs with
  | nil =>
      cases written
      rfl
  | cons ty rest ih =>
      cases first : scriptType ty with
      | error defect =>
          rw [scriptTypes, first] at written
          cases written
      | ok ref =>
          cases others : scriptTypes rest with
          | error defect =>
              rw [scriptTypes, first, others] at written
              cases written
          | ok refs =>
              rw [scriptTypes, first, others] at written
              cases written
              rw [List.length_cons, List.length_cons, ih others]

/-- The script form of a use of a definition has an argument for each of its type
parameters. -/
theorem TypeDef.IsUse.isWritten {type : TypeDef} {use : Ty} (isUse : type.IsUse use)
    {ref : TypeRef} (written : scriptType use = .ok ref) : type.IsWritten ref := by
  have arity := isUse.arity
  have head := isUse.head
  generalize use.args = args at arity head
  cases use with
  | var | param | array => cases head
  | con constructor =>
      cases head
      cases written
      exact ⟨[], rfl, arity⟩
  | app applied appliedArgs =>
      cases applied with
      | var | app | param | array => cases head
      | con constructor =>
          cases head
          cases others : scriptTypes args with
          | error defect =>
              rw [scriptType, others] at written
              cases written
          | ok refs =>
              rw [scriptType, others] at written
              cases written
              exact ⟨refs, rfl, (length_of_scriptTypes others).trans arity⟩

/-! ## The type arguments of the method -/

namespace Environment

variable {env : Environment} {request : Request Source}

/-- There are as many type arguments as the method has type parameters. -/
theorem length_of_typeArgs {method : MethodDef} {use : Ty} {args : List Ty}
    (given : env.typeArgs request method use = .ok args) :
    args.length = method.typeParams.length := by
  rw [typeArgs] at given
  split at given
  · rw [Outcome.mapError_eq_ok_iff] at given
    exact TypeIndex.length_of_inferTypeArgs given
  · split at given
    · next arity =>
      cases given
      exact arity
    · cases given

/-- A method that has type parameters gets an argument for each of them, unless its policy
ignores them. -/
theorem length_of_scriptTypeArgs {method : MethodDef} {policy : MethodPolicy} {use : Ty}
    {refs : List TypeRef} (given : env.scriptTypeArgs request method policy use = .ok refs) :
    refs.length = if method.isGeneric && !policy.ignoreGenericArguments then
      method.typeParams.length else 0 := by
  rw [scriptTypeArgs] at given
  split at given
  · next asked =>
    rw [Outcome.bind_eq_ok_iff] at given
    obtain ⟨args, isArgs, written⟩ := given
    rw [Outcome.mapError_eq_ok_iff, Outcome.ofExcept_eq_ok_iff] at written
    rw [if_pos asked, length_of_scriptTypes written, length_of_typeArgs isArgs]
  · next unasked =>
    cases given
    rw [if_neg unasked]
    rfl

end Environment

/-! ## The expressions of a blueprint -/

namespace Blueprint

variable (blueprint : Blueprint)

/-- The expression has the type arguments of the blueprint, wherever it has any, and names the
given type. -/
structure Writes (expr : Expr) (owner : Option TypeRef) : Prop where
  methodTypeArgs : expr.methodTypeArgs = blueprint.typeArgs
  instantiatesOnly : expr.InstantiatesOnly blueprint.typeArgs
  owner : expr.owner? = owner

variable {blueprint}

theorem Writes.rebound {function : Expr} {owner : Option TypeRef}
    (writes : blueprint.Writes function owner) :
    blueprint.Writes (blueprint.rebound function) owner := by
  rcases blueprint.rebound_cases function with plain | rebound
  · rw [plain]
    exact writes
  · rw [rebound]
    exact {
      methodTypeArgs := writes.methodTypeArgs
      instantiatesOnly := .of_parts (by simp) (by simpa [Expr.parts] using writes.instantiatesOnly)
      owner := writes.owner }

variable (blueprint)

/-- A member of a pure expression, with the type arguments of the blueprint. -/
theorem writes_member {target : Expr} (isPure : target.isPure = true) :
    blueprint.Writes (withTypeArgs (.member target blueprint.name) blueprint.typeArgs)
      (Expr.member target blueprint.name).owner? := by
  have member : (Expr.member target blueprint.name).InstantiatesOnly blueprint.typeArgs :=
    .of_parts (by simp)
      (by simpa [Expr.parts] using Expr.instantiatesOnly_of_isPure isPure blueprint.typeArgs)
  rcases withTypeArgs_cases (.member target blueprint.name) blueprint.typeArgs with
    ⟨noArgs, alone⟩ | ⟨hasArgs, instantiated⟩
  · rw [alone]
    exact ⟨noArgs.symm, member, rfl⟩
  · rw [instantiated]
    exact ⟨rfl, .of_parts (by simpa using hasArgs) (by simpa [Expr.parts] using member), rfl⟩

theorem writes_memberOf (owner : TypeRef) :
    blueprint.Writes (blueprint.memberOf owner) (some owner) :=
  (blueprint.writes_member rfl).rebound

theorem writes_baseCall (ancestor : TypeRef) :
    blueprint.Writes
      (blueprint.rebound (.bindBaseCall ancestor blueprint.name blueprint.typeArgs .self))
      (some ancestor) := by
  apply Writes.rebound
  have self : Expr.self.InstantiatesOnly blueprint.typeArgs :=
    Expr.instantiatesOnly_of_isPure rfl blueprint.typeArgs
  exact ⟨rfl, .of_parts (by simp) (by simpa [Expr.parts] using self), rfl⟩

/-- A binding names no type of its own, even if a type is what it binds. -/
theorem writes_binding {receiver : Expr} (isPure : receiver.isPure = true) :
    blueprint.Writes (blueprint.binding receiver) none := by
  have method := blueprint.writes_member isPure
  have bound := Expr.instantiatesOnly_of_isPure isPure blueprint.typeArgs
  apply Writes.rebound
  exact ⟨method.methodTypeArgs,
    .of_parts (by simp) (by simpa [Expr.parts] using ⟨method.instantiatesOnly, bound⟩), rfl⟩

end Blueprint

/-! ## Conversions -/

namespace Environment

variable {env : Environment} {request : Request Source}

/-- The definition whose member a conversion reads off a type: the one that declares a static
method, and the one that declares what a base call runs. -/
inductive Supplies (env : Environment) (request : Request Source) (method : MethodDef)
    (supplier : TypeDef) : Prop where
  | static (isStatic : (env.policies.method request.method).isStatic = true)
      (declares : env.index.type? method.declaring = some supplier)
  | base (nonStatic : (env.policies.method request.method).isStatic = false)
      (isBase : request.receiver = .base) {current : TypeDef}
      (isCurrent : env.index.type? request.current = some current) {target : BaseTarget}
      (isTarget : env.index.baseTarget? current method = some target)
      (declares : env.index.type? target.method.declaring = some supplier)

/-- The expression applies methods and types to as many arguments as their definitions have
type parameters. -/
structure KeepsArities (env : Environment) (request : Request Source) (method : MethodDef)
    (expr : Expr) : Prop where
  typeArgs : expr.methodTypeArgs.length =
    if method.isGeneric && !(env.policies.method request.method).ignoreGenericArguments then
      method.typeParams.length else 0
  instantiatesOnly : expr.InstantiatesOnly expr.methodTypeArgs
  /-- A type is named for a static method and for a base call. -/
  namesOwner : expr.owner?.isSome = true ↔
    (env.policies.method request.method).isStatic = true ∨ request.receiver = .base
  owner : ∀ owner, expr.owner? = some owner →
    ∃ supplier, env.Supplies request method supplier ∧ supplier.IsWritten owner

/-- What is written for an accepted request keeps the arities if it names the type that it
should. -/
theorem keepsArities_of_writes (accepted : Accepted env request) {expr : Expr}
    {owner : Option TypeRef} (writes : accepted.blueprint.Writes expr owner)
    (namesOwner : owner.isSome = true ↔
      (env.policies.method request.method).isStatic = true ∨ request.receiver = .base)
    (supplied : ∀ ref, owner = some ref →
      ∃ supplier, env.Supplies request accepted.method supplier ∧ supplier.IsWritten ref) :
    env.KeepsArities request accepted.method expr where
  typeArgs := by
    rw [writes.methodTypeArgs]
    exact length_of_scriptTypeArgs accepted.isTypeArgs
  instantiatesOnly := by
    rw [writes.methodTypeArgs]
    exact writes.instantiatesOnly
  namesOwner := by
    rw [writes.owner]
    exact namesOwner
  owner := by
    rw [writes.owner]
    exact supplied

/-- A conversion gets the numbers of type arguments right: those of the method, those of the
declaring type of a static method, and those of the type that a base call goes to. -/
theorem convert_keepsArities (wellNamed : env.index.WellNamed)
    {evaluator : Evaluator Source State} {state after : State} {conversion : Conversion}
    (converts : env.convert evaluator request state = (.ok conversion, after)) :
    ∃ method, env.index.method? request.method = some method ∧
      env.KeepsArities request method conversion.expr := by
  obtain ⟨accepted, convertsTo⟩ := exists_convertsTo converts
  refine ⟨accepted.method, accepted.isMethod, ?_⟩
  have currentKnown : accepted.current ∈ env.index.types := List.mem_of_getElem? accepted.isCurrent
  cases convertsTo with
  | @static owner isStatic written =>
      apply keepsArities_of_writes accepted (accepted.blueprint.writes_memberOf owner)
      · simp [isStatic]
      · intro ref isOwner
        cases isOwner
        have isUse := isUse_of_declaringUse accepted.isUse wellNamed currentKnown
          (List.mem_of_getElem? accepted.isDeclaring)
        exact ⟨accepted.declaring, .static isStatic accepted.isDeclaring, isUse.isWritten written⟩
  | @baseCall target ancestor nonStatic isBase supplies written =>
      apply keepsArities_of_writes accepted (accepted.blueprint.writes_baseCall ancestor)
      · simp [isBase]
      · intro ref isOwner
        cases isOwner
        obtain ⟨supplier, declares, isUse⟩ :=
          wellNamed.exists_of_baseTarget? currentKnown supplies
        exact ⟨supplier, .base nonStatic isBase accepted.isCurrent supplies declares,
          isUse.isWritten written⟩
  | bound nonStatic notBase becomes =>
      apply keepsArities_of_writes accepted (accepted.blueprint.writes_binding becomes.isPure)
      · simp [nonStatic, notBase]
      · intro ref isOwner
        cases isOwner

end Environment

namespace Containers

/-- The call of `Put` of `Crate<Object>` has an argument for `V`, and one for `U`. -/
theorem keepsArities_crateCall :
    environment.convert idle (basePut.forMethod cratePut) () = (.ok crateCall, ()) ∧
      environment.KeepsArities (basePut.forMethod cratePut) cratePut crateCall.expr ∧
      crateCall.expr.methodTypeArgs.length = 1 ∧
      ∃ supplier, environment.Supplies (basePut.forMethod cratePut) cratePut supplier ∧
        supplier.IsWritten (.instantiated ⟨"", "Crate"⟩ [.named ⟨"System", "Object"⟩]) := by
  have inferred : index.inferTypeArgs cratePut [.object] basePut.delegate = .ok [.string] :=
    TypeIndex.inferTypeArgs_of_unifyAllFor 2 rfl rfl rfl rfl rfl
  have given : environment.convert idle (basePut.forMethod cratePut) =
      environment.convert idle ((basePut.forMethod cratePut).withTypeArgs [.string]) :=
    Environment.convert_of_inferred rfl rfl rfl rfl rfl rfl inferred idle
  have converts : environment.convert idle (basePut.forMethod cratePut) () =
      (.ok crateCall, ()) := congrFun given ()
  obtain ⟨method, isMethod, keepsArities⟩ :=
    Environment.convert_keepsArities wellFormed.wellNamed converts
  have isPut : environment.index.method? (basePut.forMethod cratePut).method = some cratePut := by
    decide +kernel
  rw [isPut] at isMethod
  cases isMethod
  exact ⟨converts, keepsArities, keepsArities.typeArgs, keepsArities.owner _ rfl⟩

end Containers

end MethodGroups
