import MethodGroups.Proofs.Conversion.BaseCalls

/-!
# What a conversion asks of its evaluator

An evaluator can keep a record of the calls made to it, and a conversion does not
notice.  The record shows how a receiver is evaluated: a conversion through an
expression compiles it once, unless the policy makes the method static.  A static
method is read off its declaring type, so its receiver is not looked at.
-/

namespace MethodGroups

open Script

variable {Source State : Type}

/-- A call made to an evaluator, with its answer. -/
inductive Call (Source : Type) where
  | compile (source : Source) (target : CompiledTarget)
  | allocate (name : String)
  deriving Repr

/-- The evaluator, with a record of the calls made to it, oldest first. -/
def Evaluator.recorded (evaluator : Evaluator Source State) :
    Evaluator Source (State × List (Call Source)) where
  compile source := fun (state, calls) =>
    let (target, after) := evaluator.compile source state
    (target, after, calls ++ [.compile source target])
  allocate := fun (state, calls) =>
    let (name, after) := evaluator.allocate state
    (name, after, calls ++ [.allocate name])

/-- The calls that a conversion makes to its evaluator. -/
def Environment.calls (env : Environment) (evaluator : Evaluator Source State)
    (request : Request Source) (state : State) : List (Call Source) :=
  (env.convert evaluator.recorded request (state, [])).2.2

/-! ## Recording changes nothing -/

/-- With a record the computation does what it does without one. -/
def Records {Value : Type} (recording : StateM (State × List (Call Source)) Value)
    (plain : StateM State Value) : Prop :=
  ∀ state calls, ∃ made, recording (state, calls) = ((plain state).1, (plain state).2, made)

namespace Records

variable {Value Next : Type}

theorem pure (value : Value) :
    Records (pure value : StateM (State × List (Call Source)) Value) (pure value) :=
  fun _ calls => ⟨calls, rfl⟩

theorem bind {recording : StateM (State × List (Call Source)) Value}
    {plain : StateM State Value}
    {recordingNext : Value → StateM (State × List (Call Source)) Next}
    {plainNext : Value → StateM State Next} (first : Records recording plain)
    (next : ∀ value, Records (recordingNext value) (plainNext value)) :
    Records (recording >>= recordingNext) (plain >>= plainNext) := by
  intro state calls
  obtain ⟨between, ran⟩ := first state calls
  obtain ⟨made, continued⟩ := next (plain state).1 (plain state).2 between
  refine ⟨made, ?_⟩
  change recordingNext (recording (state, calls)).1 (recording (state, calls)).2 = _
  rw [ran]
  exact continued

end Records

namespace Evaluator

variable (evaluator : Evaluator Source State)

theorem recorded_compile {source : Source} {state next : State} {target : CompiledTarget}
    (calls : List (Call Source)) (compiles : evaluator.compile source state = (target, next)) :
    evaluator.recorded.compile source (state, calls) =
      (target, next, calls ++ [.compile source target]) := by
  simp only [recorded, compiles]

theorem recorded_allocate {state after : State} {name : String} (calls : List (Call Source))
    (allocates : evaluator.allocate state = (name, after)) :
    evaluator.recorded.allocate (state, calls) = (name, after, calls ++ [.allocate name]) := by
  simp only [recorded, allocates]

theorem records_compile (source : Source) :
    Records (evaluator.recorded.compile source) (evaluator.compile source) :=
  fun _ _ => ⟨_, rfl⟩

theorem records_allocate : Records evaluator.recorded.allocate evaluator.allocate :=
  fun _ _ => ⟨_, rfl⟩

theorem records_shareable (target : CompiledTarget) :
    Records (evaluator.recorded.shareable target) (evaluator.shareable target) := by
  rw [shareable, shareable]
  split
  · exact .pure target
  · exact evaluator.records_allocate.bind fun name => .pure _

theorem records_plan (receiver : Receiver Source) :
    Records (evaluator.recorded.plan receiver) (evaluator.plan receiver) := by
  cases receiver with
  | static => exact .pure _
  | implicitThis => exact .pure _
  | explicitThis => exact .pure _
  | base => exact .pure _
  | expression source =>
      exact (evaluator.records_compile source).bind fun target =>
        (evaluator.records_shareable target).bind fun shared => .pure _

end Evaluator

theorem Blueprint.records_build (blueprint : Blueprint) (evaluator : Evaluator Source State)
    (receiver : Receiver Source) :
    Records (blueprint.build evaluator.recorded receiver) (blueprint.build evaluator receiver) := by
  have assembled : Records (blueprint.assemble evaluator.recorded receiver)
      (blueprint.assemble evaluator receiver) := by
    rw [assemble, assemble]
    split
    · exact .pure _
    · exact .pure _
    · exact (evaluator.records_plan receiver).bind fun plan => .pure _
  refine assembled.bind fun conversion => ?_
  split
  · exact .pure _
  · exact .pure _

/-- A conversion answers as if there were no record. -/
theorem Environment.convert_recorded (env : Environment) (evaluator : Evaluator Source State)
    (request : Request Source) (state : State) :
    env.convert evaluator.recorded request (state, []) =
      ((env.convert evaluator request state).1, (env.convert evaluator request state).2,
        env.calls evaluator request state) := by
  have records : Records (env.convert evaluator.recorded request)
      (env.convert evaluator request) := by
    rw [convert, convert]
    split
    · next blueprint _ =>
      exact (blueprint.records_build evaluator request.receiver).bind fun conversion => .pure _
    · exact .pure _
    · exact .pure _
  obtain ⟨made, ran⟩ := records state []
  rw [calls, ran]

/-! ## The receiver of a conversion -/

namespace Blueprint

/-- A function, rebound to the caller's `this` if the blueprint asks for it. -/
def rebound (blueprint : Blueprint) (function : Expr) : Expr :=
  if blueprint.rebindsThis then .bindFirstParameterToThis function else function

/-- The expression of a bound method, with the receiver in both its places. -/
def binding (blueprint : Blueprint) (receiver : Expr) : Expr :=
  blueprint.rebound
    (.bind (withTypeArgs (.member receiver blueprint.name) blueprint.typeArgs) receiver)

/-- The expression of a member of a type. -/
def memberOf (blueprint : Blueprint) (owner : TypeRef) : Expr :=
  blueprint.rebound
    (withTypeArgs (.member (.typeRef owner) blueprint.name) blueprint.typeArgs)

end Blueprint

/-- How a conversion evaluates a compiled receiver: what has to run before comes
first.  A pure value is then bound as it is; any other one goes into a new variable,
and the variable is bound. -/
inductive EvaluatesOnce (source : Source) (target : CompiledTarget) (binding : Expr → Expr) :
    Conversion → List (Call Source) → Prop where
  | pure (isPure : target.value.isPure = true) :
      EvaluatesOnce source target binding ⟨target.prerequisites, binding target.value⟩
        [.compile source target]
  | stored (isImpure : target.value.isPure = false) (name : String) :
      EvaluatesOnce source target binding
        ⟨target.prerequisites ++ [.declare name (some target.value)], binding (.identifier name)⟩
        [.compile source target, .allocate name]

namespace Blueprint

variable (blueprint : Blueprint) (evaluator : Evaluator Source State)

/-- A member of a type needs no receiver. -/
theorem build_static {owner : TypeRef} (isStatic : blueprint.shape = .static owner)
    (receiver : Receiver Source) :
    blueprint.build evaluator receiver = pure ⟨[], blueprint.memberOf owner⟩ := by
  rw [build, assemble, isStatic, memberOf, rebound]
  cases blueprint.rebindsThis with
  | true => rfl
  | false => rfl

/-- A base call runs on the current instance. -/
theorem build_baseCall {ancestor : TypeRef} (isBaseCall : blueprint.shape = .baseCall ancestor)
    (receiver : Receiver Source) :
    blueprint.build evaluator receiver = pure ⟨[], blueprint.rebound
      (.bindBaseCall ancestor blueprint.name blueprint.typeArgs .self)⟩ := by
  rw [build, assemble, isBaseCall, rebound]
  cases blueprint.rebindsThis with
  | true => rfl
  | false => rfl

/-- A bound method is bound to what the plan of its receiver says. -/
theorem build_bound (isBound : blueprint.shape = .bound) (receiver : Receiver Source) :
    blueprint.build evaluator receiver = do
      let plan ← evaluator.plan receiver
      return ⟨plan.prerequisites, blueprint.binding (plan.value?.getD .self)⟩ := by
  rw [build, assemble, isBound]
  cases rebinds : blueprint.rebindsThis <;> simp [binding, rebound, rebinds]

theorem build_expression (isBound : blueprint.shape = .bound) (source : Source) :
    blueprint.build evaluator (.expression source) = do
      let target ← evaluator.compile source
      let shared ← evaluator.shareable target
      return ⟨shared.prerequisites, blueprint.binding shared.value⟩ := by
  rw [blueprint.build_bound evaluator isBound, Evaluator.plan]
  simp only [bind_assoc, pure_bind]
  rfl

section Compiled

variable (isBound : blueprint.shape = .bound) {source : Source} {state next : State}
variable {target : CompiledTarget}

include isBound

/-- A pure value is bound as it is. -/
theorem build_of_isPure (compiles : evaluator.compile source state = (target, next))
    (isPure : target.value.isPure = true) :
    blueprint.build evaluator (.expression source) state =
      (⟨target.prerequisites, blueprint.binding target.value⟩, next) := by
  rw [blueprint.build_expression evaluator isBound]
  simp only [bind, StateT.bind, compiles]
  rw [Evaluator.shareable, if_pos isPure]
  rfl

/-- Any other value goes into a variable, and the variable is bound. -/
theorem build_of_isImpure (compiles : evaluator.compile source state = (target, next))
    (isImpure : target.value.isPure = false) {name : String} {after : State}
    (allocates : evaluator.allocate next = (name, after)) :
    blueprint.build evaluator (.expression source) state =
      (⟨target.prerequisites ++ [.declare name (some target.value)],
        blueprint.binding (.identifier name)⟩, after) := by
  rw [blueprint.build_expression evaluator isBound]
  simp only [bind, StateT.bind, compiles]
  rw [Evaluator.shareable, if_neg (Bool.eq_false_iff.mp isImpure)]
  simp only [bind, StateT.bind, allocates]
  rfl

end Compiled

theorem evaluatesOnce (isBound : blueprint.shape = .bound) (source : Source) (state : State) :
    EvaluatesOnce source (evaluator.compile source state).1 blueprint.binding
      (blueprint.build evaluator (.expression source) state).1
      (blueprint.build evaluator.recorded (.expression source) (state, [])).2.2 := by
  rcases compiles : evaluator.compile source state with ⟨target, next⟩
  have recordsCompile := evaluator.recorded_compile [] compiles
  cases isPure : target.value.isPure with
  | true =>
      rw [blueprint.build_of_isPure evaluator isBound compiles isPure,
        blueprint.build_of_isPure evaluator.recorded isBound recordsCompile isPure]
      exact .pure isPure
  | false =>
      rcases allocates : evaluator.allocate next with ⟨name, after⟩
      have recordsAllocate := evaluator.recorded_allocate [.compile source target] allocates
      rw [blueprint.build_of_isImpure evaluator isBound compiles isPure allocates,
        blueprint.build_of_isImpure evaluator.recorded isBound recordsCompile isPure
          recordsAllocate]
      exact .stored isPure name

end Blueprint

namespace Environment

variable {env : Environment} {request : Request Source}

theorem calls_of_blueprint {blueprint : Blueprint} (evaluator : Evaluator Source State)
    (state : State) (isBlueprint : env.blueprint request = .ok blueprint) :
    env.calls evaluator request state =
      (blueprint.build evaluator.recorded request.receiver (state, [])).2.2 := by
  rw [calls, convert, isBlueprint]
  rfl

/-- A request for a static method is for a member of its declaring type, as the request
uses it, and no other one is. -/
theorem shape_of_expression {source : Source} (isExpression : request.receiver = .expression source)
    (accepted : Accepted env request) :
    if (env.policies.method request.method).isStatic then
      ∃ owner, scriptType accepted.use = .ok owner ∧ accepted.shape = .static owner
    else accepted.shape = .bound := by
  have shaped := accepted.shaped
  generalize accepted.shape = shape at shaped ⊢
  cases shaped with
  | @static owner isStatic written =>
      rw [if_pos isStatic]
      exact ⟨owner, written, rfl⟩
  | baseCall nonStatic isBase supplies written =>
      rw [isExpression] at isBase
      cases isBase
  | bound nonStatic notBase given => rw [if_neg (Bool.eq_false_iff.mp nonStatic)]

/-- A static method is not bound to its receiver. -/
theorem nonStatic_of_isBound {source : Source}
    (isExpression : request.receiver = .expression source) (accepted : Accepted env request)
    (isBound : accepted.shape = .bound) :
    (env.policies.method request.method).isStatic = false := by
  have shapes := shape_of_expression isExpression accepted
  split at shapes
  · obtain ⟨owner, -, isMember⟩ := shapes
    rw [isBound] at isMember
    cases isMember
  · next nonStatic => exact Bool.eq_false_iff.mpr nonStatic

/-- A conversion through an expression compiles the expression once and evaluates what it
was compiled to once.  Under a static policy the conversion is a member of the declaring
type, as the request uses it, and the expression is not compiled at all. -/
theorem convert_expression (evaluator : Evaluator Source State) {state after : State}
    {conversion : Conversion} {source : Source}
    (isExpression : request.receiver = .expression source)
    (converts : env.convert evaluator request state = (.ok conversion, after)) :
    ∃ accepted : Accepted env request, env.blueprint request = .ok accepted.blueprint ∧
      if (env.policies.method request.method).isStatic then
        env.calls evaluator request state = [] ∧
          ∃ owner, scriptType accepted.use = .ok owner ∧
            conversion = ⟨[], accepted.blueprint.memberOf owner⟩
      else
        EvaluatesOnce source (evaluator.compile source state).1 accepted.blueprint.binding
          conversion (env.calls evaluator request state) := by
  obtain ⟨blueprint, isBlueprint, builds⟩ := convert_eq_ok_iff.mp converts
  obtain ⟨accepted, rfl⟩ := blueprint_eq_ok_iff.mp isBlueprint
  refine ⟨accepted, isBlueprint, ?_⟩
  rw [calls_of_blueprint evaluator state isBlueprint]
  have shapes := shape_of_expression isExpression accepted
  rw [isExpression] at builds ⊢
  split at shapes
  · next isStatic =>
    obtain ⟨owner, written, isMember⟩ := shapes
    rw [if_pos isStatic]
    rw [accepted.blueprint.build_static evaluator isMember] at builds
    rw [accepted.blueprint.build_static evaluator.recorded isMember]
    cases builds
    exact ⟨rfl, owner, written, rfl⟩
  · next nonStatic =>
    rw [if_neg nonStatic]
    have once := accepted.blueprint.evaluatesOnce evaluator shapes source state
    rw [builds] at once
    exact once

end Environment

namespace Containers

theorem calls_putInShelf (policies : Policies) (evaluator : Evaluator Source State)
    (receiver : Receiver Source) (state : State) :
    Environment.calls ⟨index, policies⟩ evaluator (putInShelf receiver) state =
      Environment.calls ⟨index, policies⟩ evaluator ((putInShelf receiver).withTypeArgs [.string])
        state := by
  rw [Environment.calls, Environment.calls, convert_putInShelf]

/-- Receivers are given in compiled form, and variables are numbered. -/
def precompiled : Evaluator CompiledTarget Temporaries := ⟨pure, Temporaries.allocate⟩

/-- The result of the call `take()`, where `take` is declared first. -/
def taken : CompiledTarget := ⟨[.declare "take" none], .invoke (.identifier "take") []⟩

/-- `take().Put`, converted to a delegate that takes an object and a string. -/
def takenPut : Request CompiledTarget := putInShelf (.expression taken)

/-- `Put`, bound to a variable that holds what was taken. -/
def takenCall : Conversion :=
  ⟨[.declare "take" none, .declare "tmp1" (some taken.value)],
    .bind (.instantiateMethod (.member (.identifier "tmp1") "Put")
      [.named ⟨"System", "String"⟩]) (.identifier "tmp1")⟩

theorem converts_takenPut : environment.convert precompiled takenPut (.start "tmp") =
    (.ok takenCall, ⟨"tmp", 2⟩) :=
  congrFun (convert_putInShelf environment.policies precompiled takenPut.receiver) _

/-- Every method is called `Put` in script, and is static there. -/
def staticEnvironment : Environment :=
  ⟨index, ⟨fun _ => .normal "Put" true, fun _ => .plain⟩⟩

/-- `Put` of `Box<System.Object>`. -/
def boxMember : Conversion :=
  ⟨[], .instantiateMethod
    (.member (.typeRef (.instantiated ⟨"", "Box"⟩ [.named ⟨"System", "Object"⟩])) "Put")
    [.named ⟨"System", "String"⟩]⟩

theorem converts_takenPut_static :
    staticEnvironment.convert precompiled takenPut (.start "tmp") =
      (.ok boxMember, .start "tmp") :=
  congrFun (convert_putInShelf staticEnvironment.policies precompiled takenPut.receiver) _

/-- `take()` is called once for a bound `Put`, and not at all for a static one. -/
theorem convert_takenPut :
    (environment.convert precompiled takenPut (.start "tmp") = (.ok takenCall, ⟨"tmp", 2⟩) ∧
      ∃ accepted : Accepted environment takenPut,
        environment.blueprint takenPut = .ok accepted.blueprint ∧
          EvaluatesOnce taken taken accepted.blueprint.binding takenCall
            (environment.calls precompiled takenPut (.start "tmp"))) ∧
    staticEnvironment.convert precompiled takenPut (.start "tmp") =
        (.ok boxMember, .start "tmp") ∧
      ∃ accepted : Accepted staticEnvironment takenPut,
        staticEnvironment.blueprint takenPut = .ok accepted.blueprint ∧
          staticEnvironment.calls precompiled takenPut (.start "tmp") = [] ∧
          ∃ owner, scriptType accepted.use = .ok owner ∧
            boxMember = ⟨[], accepted.blueprint.memberOf owner⟩ :=
  ⟨⟨converts_takenPut, Environment.convert_expression precompiled rfl converts_takenPut⟩,
    converts_takenPut_static,
    Environment.convert_expression precompiled rfl converts_takenPut_static⟩

/-- If script has `Put` as a static method, `take()` is not called for it. -/
theorem convert_takenPut_static :
    takenPut.receiver = .expression taken ∧
      staticEnvironment.convert precompiled takenPut (.start "tmp") =
        (.ok boxMember, .start "tmp") ∧
      staticEnvironment.calls precompiled takenPut (.start "tmp") = [] ∧
      ¬ ∃ later, boxMember.prerequisites = taken.prerequisites ++ later := by
  have asks : staticEnvironment.calls precompiled takenPut (.start "tmp") = [] :=
    calls_putInShelf staticEnvironment.policies precompiled takenPut.receiver (.start "tmp")
  refine ⟨rfl, converts_takenPut_static, asks, ?_⟩
  intro holds
  rcases holds with ⟨later, appear⟩
  cases appear

end Containers

end MethodGroups
