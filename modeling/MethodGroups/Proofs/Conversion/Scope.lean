import MethodGroups.Proofs.Conversion.Calls
import MethodGroups.Proofs.Inference.Scope

/-!
# The type parameters that converted code names

A type parameter is held in a variable at run time, and code inside a type can only name
the variables of this type and of the method around it.  What a conversion writes comes from
the declaring type as the request uses it, from the type that supplies a base call, and from
the type arguments of the method.  All of them are in the terms of the current type, except
for a declaring type that this type neither is nor inherits from, and whose arguments the
request does not give: it is written with its own parameters, which are out of scope.
-/

namespace MethodGroups

namespace Script

/-! ## Type parameters in a script tree -/

mutual

/-- The names of the type parameters in a reference, from left to right. -/
def TypeRef.paramNames : TypeRef → List String
  | .named _ | .array => []
  | .instantiated _ args => TypeRef.paramNamesList args
  | .param name => [name]

/-- The names of the type parameters in a list of references. -/
def TypeRef.paramNamesList : List TypeRef → List String
  | [] => []
  | type :: rest => type.paramNames ++ TypeRef.paramNamesList rest

end

mutual

/-- The names of the type parameters in an expression, from left to right. -/
def Expr.paramNames : Expr → List String
  | .self | .null | .identifier _ | .string _ => []
  | .typeRef type => type.paramNames
  | .member target _ => target.paramNames
  | .array items => Expr.paramNamesList items
  | .invoke callee args => callee.paramNames ++ Expr.paramNamesList args
  | .assign target value => target.paramNames ++ value.paramNames
  | .instantiateMethod method typeArgs =>
      method.paramNames ++ TypeRef.paramNamesList typeArgs
  | .bind method receiver => method.paramNames ++ receiver.paramNames
  | .bindBaseCall ancestor _ typeArgs receiver =>
      ancestor.paramNames ++ TypeRef.paramNamesList typeArgs ++ receiver.paramNames
  | .bindFirstParameterToThis function => function.paramNames

/-- The names of the type parameters in a list of expressions. -/
def Expr.paramNamesList : List Expr → List String
  | [] => []
  | expr :: rest => expr.paramNames ++ Expr.paramNamesList rest

end

end Script

open Script

variable {Source State : Type} {allowed : TyParam → Prop}

mutual

/-- The script form of a type names only what the type mentions. -/
theorem exists_of_mem_paramNames : {ty : Ty} → {ref : TypeRef} → scriptType ty = .ok ref →
    ty.Within allowed → ∀ name ∈ ref.paramNames, ∃ p, allowed p ∧ p.name = name
  | .con constructor, ref, written, _ => by
      cases written
      simp [TypeRef.paramNames]
  | .array element, ref, written, _ => by
      cases written
      simp [TypeRef.paramNames]
  | .var v, ref, written, _ => by cases written
  | .param p, ref, written, within => by
      cases written
      intro name isName
      cases List.mem_singleton.mp isName
      exact ⟨p, within p (List.mem_singleton_self p), rfl⟩
  | .app head args, ref, written, within => by
      cases head with
      | con constructor =>
          cases writtenArgs : scriptTypes args with
          | error defect =>
              rw [scriptType, writtenArgs] at written
              cases written
          | ok refs =>
              rw [scriptType, writtenArgs] at written
              cases written
              exact exists_of_mem_paramNamesList writtenArgs (Ty.within_app.mp within).2
      | var | app | param | array => cases written

/-- The script forms of types name only what the types mention. -/
theorem exists_of_mem_paramNamesList : {types : List Ty} → {refs : List TypeRef} →
    scriptTypes types = .ok refs → (∀ ty ∈ types, ty.Within allowed) →
      ∀ name ∈ TypeRef.paramNamesList refs, ∃ p, allowed p ∧ p.name = name
  | [], refs, written, _ => by
      cases written
      simp [TypeRef.paramNamesList]
  | ty :: rest, refs, written, within => by
      cases first : scriptType ty with
      | error defect =>
          rw [scriptTypes, first] at written
          cases written
      | ok ref =>
          cases others : scriptTypes rest with
          | error defect =>
              rw [scriptTypes, first, others] at written
              cases written
          | ok refs =>
              rw [scriptTypes, first, others] at written
              cases written
              rw [List.forall_mem_cons] at within
              rw [TypeRef.paramNamesList]
              exact List.forall_mem_append.mpr
                ⟨exists_of_mem_paramNames first within.1,
                  exists_of_mem_paramNamesList others within.2⟩

end

/-! ## What a blueprint brings into the expression -/

/-- The names of the type parameters in a shape. -/
def Shape.paramNames : Shape → List String
  | .static owner => owner.paramNames
  | .baseCall ancestor => ancestor.paramNames
  | .bound => []

namespace Blueprint

/-- The names of the type parameters in a blueprint. -/
def paramNames (blueprint : Blueprint) : List String :=
  blueprint.shape.paramNames ++ TypeRef.paramNamesList blueprint.typeArgs

variable (blueprint : Blueprint)

theorem paramNames_rebound (function : Expr) :
    (blueprint.rebound function).paramNames = function.paramNames := by
  rw [rebound]
  split <;> simp only [Expr.paramNames]

theorem mem_paramNames_withTypeArgs {method : Expr} {typeArgs : List TypeRef} {name : String} :
    name ∈ (withTypeArgs method typeArgs).paramNames ↔
      name ∈ method.paramNames ∨ name ∈ TypeRef.paramNamesList typeArgs := by
  rw [withTypeArgs]
  split
  · next none =>
    rw [List.isEmpty_iff.mp none]
    simp [TypeRef.paramNamesList]
  · simp [Expr.paramNames]

theorem mem_paramNames_binding {receiver : Expr} {name : String}
    (isName : name ∈ (blueprint.binding receiver).paramNames) :
    name ∈ blueprint.paramNames ∨ name ∈ receiver.paramNames := by
  rw [binding, paramNames_rebound, Expr.paramNames, List.mem_append, mem_paramNames_withTypeArgs,
    Expr.paramNames] at isName
  rw [paramNames, List.mem_append]
  rcases isName with (inReceiver | inArgs) | inReceiver
  · exact .inr inReceiver
  · exact .inl (.inr inArgs)
  · exact .inr inReceiver

end Blueprint

/-- A name stands in the pure value that a receiver expression is compiled to. -/
def Receiver.Brings (receiver : Receiver Source) (evaluator : Evaluator Source State)
    (state : State) (name : String) : Prop :=
  ∃ source, receiver = .expression source ∧
    (evaluator.compile source state).1.value.isPure = true ∧
    name ∈ (evaluator.compile source state).1.value.paramNames

/-- A plan adds no type parameters to what the evaluator compiles. -/
theorem Evaluator.brings_of_mem_plan (evaluator : Evaluator Source State)
    (receiver : Receiver Source) (state : State) {name : String}
    (isName : name ∈ ((evaluator.plan receiver state).1.value?.getD .self).paramNames) :
    receiver.Brings evaluator state name := by
  cases receiver with
  | static | implicitThis | explicitThis | base =>
      change name ∈ Expr.self.paramNames at isName
      rw [Expr.paramNames] at isName
      cases isName
  | expression source =>
      refine ⟨source, rfl, ?_⟩
      rcases compiles : evaluator.compile source state with ⟨target, next⟩
      have planned : (evaluator.plan (.expression source) state).1 =
          .expression (evaluator.shareable target next).1 := by
        simp only [plan, bind, StateT.bind, compiles]
        rfl
      rw [planned] at isName
      change name ∈ (evaluator.shareable target next).1.value.paramNames at isName
      rw [shareable] at isName
      split at isName
      · next isPure => exact ⟨isPure, isName⟩
      · change name ∈ (Expr.identifier _).paramNames at isName
        rw [Expr.paramNames] at isName
        cases isName

/-- The expression names what its blueprint names, and if the method is bound, what the
receiver brings. -/
theorem Blueprint.mem_paramNames_of_build (blueprint : Blueprint)
    (evaluator : Evaluator Source State) (receiver : Receiver Source) (state : State)
    {name : String} (isName : name ∈ (blueprint.build evaluator receiver state).1.expr.paramNames) :
    name ∈ blueprint.paramNames ∨
      blueprint.shape = .bound ∧ receiver.Brings evaluator state name := by
  cases shape : blueprint.shape with
  | static owner =>
      rw [blueprint.build_static evaluator shape] at isName
      change name ∈ (blueprint.memberOf owner).paramNames at isName
      rw [memberOf, paramNames_rebound, mem_paramNames_withTypeArgs, Expr.paramNames,
        Expr.paramNames] at isName
      rw [paramNames, shape, List.mem_append]
      exact .inl isName
  | baseCall ancestor =>
      rw [blueprint.build_baseCall evaluator shape] at isName
      change name ∈ (blueprint.rebound _).paramNames at isName
      rw [paramNames_rebound, Expr.paramNames, Expr.paramNames, List.append_nil] at isName
      rw [paramNames, shape]
      exact .inl isName
  | bound =>
      rw [blueprint.build_bound evaluator shape] at isName
      change name ∈ (blueprint.binding
        ((evaluator.plan receiver state).1.value?.getD .self)).paramNames at isName
      exact (blueprint.mem_paramNames_binding isName).imp_right fun inReceiver =>
        ⟨rfl, evaluator.brings_of_mem_plan receiver state inReceiver⟩

/-! ## Requests in scope -/

namespace Request

/-- The types that a request gives. -/
def types (request : Request Source) : List Ty :=
  request.declaringArgs ++ request.typeArgs ++ [request.delegate]

/-- The request mentions only type parameters of the current type and of methods. -/
def Scoped (request : Request Source) (current : TypeDef) : Prop :=
  ∀ ty ∈ request.types, ∀ p ∈ ty.params, p ∈ current.tyParams ∨ p.key.owner = .method

instance (request : Request Source) (current : TypeDef) : Decidable (request.Scoped current) :=
  inferInstanceAs (Decidable (∀ ty ∈ request.types, ∀ p ∈ ty.params,
    p ∈ current.tyParams ∨ p.key.owner = .method))

/-- The type parameters that converted code may name: those of the current type, and those
of the method around it that the request mentions. -/
def InScope (request : Request Source) (current : TypeDef) (p : TyParam) : Prop :=
  p ∈ current.tyParams ∨ p.key.owner = .method ∧ ∃ ty ∈ request.types, p ∈ ty.params

variable {request : Request Source} {current : TypeDef}

theorem Scoped.within (requestScoped : request.Scoped current) {ty : Ty}
    (isType : ty ∈ request.types) :
    ty.Within (request.InScope current) :=
  fun p mentioned => (requestScoped ty isType p mentioned).imp_right fun owner =>
    ⟨owner, ty, isType, mentioned⟩

end Request

namespace Environment

/-- The declaring type can be told in the terms of the current type: the request gives its
arguments, the current type is or inherits from it, or it has no type parameters. -/
def Expresses (env : Environment) (request : Request Source) (current declaring : TypeDef) :
    Prop :=
  request.declaringArgs ≠ [] ∨ (env.index.ancestorUse? current declaring.id).isSome = true ∨
    declaring.typeParams = []

instance (env : Environment) (request : Request Source) (current declaring : TypeDef) :
    Decidable (env.Expresses request current declaring) :=
  inferInstanceAs (Decidable (_ ∨ _ ∨ _))

variable {env : Environment} {request : Request Source} {current : TypeDef}

section Declaring

variable {declaring : TypeDef} {use : Ty}
variable (used : env.declaringUse request current declaring = .ok use)

include used

/-- The declaring type is used with an argument for each of its type parameters. -/
theorem isUse_of_declaringUse (wellNamed : env.index.WellNamed)
    (currentKnown : current ∈ env.index.types) (declaringKnown : declaring ∈ env.index.types) :
    declaring.IsUse use := by
  rw [declaringUse] at used
  split at used
  · cases used
    cases views : env.index.ancestorUse? current declaring.id with
    | none => exact .selfTy declaring
    | some seenUse =>
        obtain ⟨seen, isSeen, isUse⟩ := wellNamed.exists_of_ancestorUse? currentKnown views
        rw [wellNamed.consistent.type?_id declaringKnown] at isSeen
        rw [Option.some.inj isSeen]
        exact isUse
  · split at used
    · next arity =>
      cases used
      exact (TypeDef.IsUse.of_head? (Ty.head?_named ..) arity).1
    · cases used

/-- A declaring type that the current type can express is used in its terms. -/
theorem within_declaringUse (wellFormed : env.index.WellFormed)
    (currentKnown : current ∈ env.index.types) (requestScoped : request.Scoped current)
    (expresses : env.Expresses request current declaring) :
    use.Within (request.InScope current) := by
  rw [declaringUse] at used
  split at used
  · next noArgs =>
    cases used
    cases views : env.index.ancestorUse? current declaring.id with
    | none =>
        have noParams : declaring.typeParams = [] := by
          simpa [Expresses, views, List.isEmpty_iff.mp noArgs] using expresses
        apply TypeDef.within_selfTy
        simp [TypeDef.tyParams, noParams]
    | some seenUse =>
        exact wellFormed.within_ancestorUse? currentKnown (fun p own => .inl own) views
  · split at used
    · cases used
      rw [TypeDef.instantiate, Ty.within_named]
      intro arg isArg
      exact requestScoped.within (List.mem_append_left _ (List.mem_append_left _ isArg))
    · cases used

end Declaring

variable (requestScoped : request.Scoped current)

include requestScoped

/-- The given type arguments are in scope, and so are the inferred ones if the delegate
leaves nothing open or the declaring type is told in terms of the current type. -/
theorem within_typeArgs (wellFormed : env.index.WellFormed)
    (signatures : env.index.SignaturesScoped)
    (plain : ∀ named ∈ request.delegate.head?, named.1.IsPlain) {method : MethodDef}
    (known : method ∈ env.index.methods) {declaring : TypeDef}
    (isDeclaring : env.index.type? method.declaring = some declaring) {use : Ty}
    (isUse : declaring.IsUse use)
    (sides : (env.index.SignaturesVarFree ∧ request.delegate.VarFree) ∨
      use.Within (request.InScope current)) {args : List Ty}
    (given : env.typeArgs request method use = .ok args) :
    ∀ arg ∈ args, arg.Within (request.InScope current) := by
  rw [Environment.typeArgs] at given
  split at given
  · rw [Outcome.mapError_eq_ok_iff] at given
    have delegateWithin := requestScoped.within
      (List.mem_append_right _ (List.mem_singleton_self request.delegate))
    exact env.index.inferTypeArgs_within wellFormed.plainName signatures known isDeclaring
      isUse.arity plain delegateWithin (sides.imp_right fun within => within.of_head? isUse.head)
      given
  · split at given
    · cases given
      intro arg isArg
      exact requestScoped.within (List.mem_append_left _ (List.mem_append_right _ isArg))
    · cases given

omit requestScoped in
/-- A shape names what the type in it mentions: the declaring type in a static one, and the
type that supplies the method in a base call. -/
theorem exists_of_mem_shape (wellFormed : env.index.WellFormed) (accepted : Accepted env request)
    (currentKnown : accepted.current ∈ env.index.types)
    (useWithin : (env.policies.method request.method).isStatic = true →
      accepted.use.Within (request.InScope accepted.current)) :
    ∀ name ∈ accepted.shape.paramNames,
      ∃ p, request.InScope accepted.current p ∧ p.name = name := by
  have shaped := accepted.shaped
  generalize accepted.shape = shape at shaped ⊢
  cases shaped with
  | static isStatic written => exact exists_of_mem_paramNames written (useWithin isStatic)
  | @baseCall target ancestor nonStatic isBase supplies written =>
      have targetWithin : target.use.Within (request.InScope accepted.current) :=
        wellFormed.within_baseTarget? currentKnown (fun p own => .inl own) supplies
      exact exists_of_mem_paramNames written targetWithin
  | bound => simp [Shape.paramNames]

variable (wellFormed : env.index.WellFormed) (signatures : env.index.SignaturesScoped)
variable (isCurrent : env.index.type? request.current = some current)
variable (plain : ∀ named ∈ request.delegate.head?, named.1.IsPlain)

include wellFormed signatures isCurrent plain

/-- The blueprint names what is in scope, if the declaring type is told in terms of the
current type or does not show. -/
theorem exists_of_mem_blueprint (accepted : Accepted env request)
    (expresses : env.Expresses request current accepted.declaring ∨
      (env.policies.method request.method).isStatic = false ∧
        env.index.SignaturesVarFree ∧ request.delegate.VarFree) :
    ∀ name ∈ accepted.blueprint.paramNames,
      ∃ p, request.InScope current p ∧ p.name = name := by
  obtain rfl : accepted.current = current :=
    Option.some.inj (accepted.isCurrent.symm.trans isCurrent)
  have currentKnown : accepted.current ∈ env.index.types := List.mem_of_getElem? isCurrent
  have isUse := isUse_of_declaringUse accepted.isUse wellFormed.wellNamed currentKnown
    (List.mem_of_getElem? accepted.isDeclaring)
  have useWithin : env.Expresses request accepted.current accepted.declaring →
      accepted.use.Within (request.InScope accepted.current) :=
    within_declaringUse accepted.isUse wellFormed currentKnown requestScoped
  rw [Blueprint.paramNames, List.forall_mem_append]
  constructor
  · apply exists_of_mem_shape wellFormed accepted currentKnown
    intro isStatic
    rcases expresses with expressed | ⟨nonStatic, -⟩
    · exact useWithin expressed
    · rw [isStatic] at nonStatic
      cases nonStatic
  · have isTypeArgs := accepted.isTypeArgs
    rw [scriptTypeArgs] at isTypeArgs
    change ∀ name ∈ TypeRef.paramNamesList accepted.typeArgs, _
    split at isTypeArgs
    · rw [Outcome.bind_eq_ok_iff] at isTypeArgs
      obtain ⟨args, given, written⟩ := isTypeArgs
      rw [Outcome.mapError_eq_ok_iff, Outcome.ofExcept_eq_ok_iff] at written
      have sides := expresses.symm.imp And.right useWithin
      exact exists_of_mem_paramNamesList written
        (within_typeArgs requestScoped wellFormed signatures plain
          (List.mem_of_getElem? accepted.isMethod) accepted.isDeclaring isUse sides given)
    · rw [← Outcome.ok.inj isTypeArgs]
      simp [TypeRef.paramNamesList]

/-- Converted code names only type parameters that are in scope, if the declaring type is
told in terms of the current type, or does not show because the method is no static one:
the names are those of type parameters of the current type, those of type parameters of
methods that the request mentions, and those in the pure value of a receiver expression that
the method is bound to. -/
theorem paramNames_inScope
    (expresses : ∀ method ∈ env.index.method? request.method,
      ∀ declaring ∈ env.index.type? method.declaring,
        env.Expresses request current declaring ∨
          (env.policies.method request.method).isStatic = false ∧
            env.index.SignaturesVarFree ∧ request.delegate.VarFree)
    {evaluator : Evaluator Source State} {state after : State} {conversion : Conversion}
    (converts : env.convert evaluator request state = (.ok conversion, after)) :
    ∀ name ∈ conversion.expr.paramNames,
      (∃ p, request.InScope current p ∧ p.name = name) ∨
        (env.policies.method request.method).isStatic = false ∧
          request.receiver.Brings evaluator state name := by
  obtain ⟨blueprint, isBlueprint, builds⟩ := convert_eq_ok_iff.mp converts
  obtain ⟨accepted, rfl⟩ := blueprint_eq_ok_iff.mp isBlueprint
  intro name isName
  have built : name ∈ accepted.blueprint.paramNames ∨
      accepted.shape = .bound ∧ request.receiver.Brings evaluator state name := by
    apply accepted.blueprint.mem_paramNames_of_build evaluator request.receiver state
    rw [builds]
    exact isName
  rcases built with inBlueprint | ⟨isBound, source, isExpression, inReceiver⟩
  · exact .inl (exists_of_mem_blueprint requestScoped wellFormed signatures isCurrent plain
      accepted (expresses _ accepted.isMethod _ accepted.isDeclaring) name inBlueprint)
  · have nonStatic := nonStatic_of_isBound isExpression accepted isBound
    exact .inr ⟨nonStatic, source, isExpression, inReceiver⟩

end Environment

namespace Containers

/-- `Put` in a generic method of `Crate<U>`, converted to a delegate that takes a `U` and a
value of the type parameter of this method. -/
def cratedPut : Request CompiledTarget :=
  ⟨⟨0⟩, [], [], .named ⟨"", "Sink"⟩ [crated, callerParam], .static, ⟨2⟩, .origin⟩

/-- `Put` of `Box<U>`. -/
def cratedMember : Conversion :=
  ⟨[], .instantiateMethod
    (.member (.typeRef (.instantiated ⟨"", "Box"⟩ [.param "U"])) "Put") [.param "W"]⟩

/-- Inside `Crate<U>`, a static `Put` of `Box<T>` is one of `Box<U>`. -/
theorem paramNames_cratedMember :
    staticEnvironment.convert precompiled cratedPut (.start "tmp") =
        (.ok cratedMember, .start "tmp") ∧
      cratedMember.expr.paramNames = ["U", "W"] ∧
      ∀ name ∈ cratedMember.expr.paramNames, ∃ p, cratedPut.InScope crate p ∧ p.name = name := by
  have inferred : index.inferTypeArgs boxPut [crated] cratedPut.delegate = .ok [callerParam] :=
    TypeIndex.inferTypeArgs_of_unifyAllFor 2 rfl rfl rfl rfl rfl
  have given : staticEnvironment.convert precompiled cratedPut =
      staticEnvironment.convert precompiled (cratedPut.withTypeArgs [callerParam]) :=
    Environment.convert_of_inferred rfl rfl rfl rfl rfl rfl inferred precompiled
  have converts : staticEnvironment.convert precompiled cratedPut (.start "tmp") =
      (.ok cratedMember, .start "tmp") := congrFun given _
  have expresses : ∀ method ∈ index.method? cratedPut.method,
      ∀ declaring ∈ index.type? method.declaring,
        staticEnvironment.Expresses cratedPut crate declaring := by
    decide +kernel
  have names : ∀ name ∈ cratedMember.expr.paramNames,
      (∃ p, cratedPut.InScope crate p ∧ p.name = name) ∨
        (staticEnvironment.policies.method cratedPut.method).isStatic = false ∧
          cratedPut.receiver.Brings precompiled (.start "tmp") name :=
    Environment.paramNames_inScope (by decide) wellFormed signaturesScoped rfl (by decide)
      (fun method isMethod declaring isDeclaring =>
        .inl (expresses method isMethod declaring isDeclaring)) converts
  refine ⟨converts, by decide, ?_⟩
  intro name isName
  rcases names name isName with inScope | ⟨-, source, isExpression, -⟩
  · exact inScope
  · cases isExpression

/-- `Put` in `System.Object`, which knows nothing of `Box<T>`. -/
def outerPut : Request CompiledTarget :=
  ⟨⟨0⟩, [], [], .named ⟨"", "Sink"⟩ [.object, .string], .static, ⟨0⟩, .origin⟩

def objectType : TypeDef := ⟨⟨0⟩, ⟨"System", "Object"⟩, [], none, .ordinary, []⟩

/-- `Put` of `Box<T>`. -/
def openMember : Conversion :=
  ⟨[], .instantiateMethod
    (.member (.typeRef (.instantiated ⟨"", "Box"⟩ [.param "T"])) "Put")
    [.named ⟨"System", "String"⟩]⟩

/-- From outside, a static `Put` of `Box<T>` is written with the `T` of `Box`, although the
request mentions no type parameter and the current type has none. -/
theorem paramNames_openMember :
    staticEnvironment.index.WellFormed ∧ staticEnvironment.index.SignaturesScoped ∧
      staticEnvironment.index.type? outerPut.current = some objectType ∧
      outerPut.Scoped objectType ∧
      staticEnvironment.convert precompiled outerPut (.start "tmp") =
        (.ok openMember, .start "tmp") ∧
      "T" ∈ openMember.expr.paramNames ∧
      ¬ ∃ p, outerPut.InScope objectType p ∧ p.name = "T" := by
  have inferred : index.inferTypeArgs boxPut [boxed] outerPut.delegate = .ok [.string] :=
    TypeIndex.inferTypeArgs_of_unifyAllFor 2 rfl rfl rfl rfl rfl
  have given : staticEnvironment.convert precompiled outerPut =
      staticEnvironment.convert precompiled (outerPut.withTypeArgs [.string]) :=
    Environment.convert_of_inferred rfl rfl rfl rfl rfl rfl inferred precompiled
  have converts : staticEnvironment.convert precompiled outerPut (.start "tmp") =
      (.ok openMember, .start "tmp") := congrFun given _
  have noParams : ∀ ty ∈ outerPut.types, ty.params = [] := by decide
  refine ⟨wellFormed, signaturesScoped, rfl, by decide, converts, by decide, ?_⟩
  rintro ⟨p, own | ⟨-, ty, isType, mentioned⟩, -⟩
  · cases own
  · rw [noParams ty isType] at mentioned
    cases mentioned

end Containers

end MethodGroups
