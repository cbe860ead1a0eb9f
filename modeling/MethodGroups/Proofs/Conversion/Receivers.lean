import MethodGroups.Proofs.Conversion.Calls
import Mathlib.Logic.Relation

/-!
# The two mentions of a bound receiver

A bound method mentions its receiver twice: where the member is read, and where the receiver
is bound.  Both mentions are the same expression, and to read it twice is to read it once.  A
receiver with any other value is kept in a variable, and the value itself stands in the
declaration of this variable alone.  It could stand in the bound expression only if it read
the variable that it is about to be kept in, which no value does if the name is new to it.
-/

namespace MethodGroups

namespace Script.Expr

/-! ## Parts of an expression -/

/-- The expressions that an expression is made of directly. -/
def parts : Expr → List Expr
  | .self | .null | .identifier _ | .typeRef _ | .string _ => []
  | .member target _ => [target]
  | .array items => items
  | .invoke callee args => callee :: args
  | .assign target value => [target, value]
  | .instantiateMethod method _ => [method]
  | .bind method receiver => [method, receiver]
  | .bindBaseCall _ _ _ receiver => [receiver]
  | .bindFirstParameterToThis function => [function]

/-- The expression stands somewhere in another one, or is all of it. -/
def IsPartOf : Expr → Expr → Prop := Relation.ReflTransGen fun part whole => part ∈ whole.parts

theorem isPartOf_iff {part whole : Expr} :
    part.IsPartOf whole ↔ part = whole ∨ ∃ direct ∈ whole.parts, part.IsPartOf direct := by
  rw [IsPartOf, Relation.ReflTransGen.cases_tail_iff]
  simp only [and_comm, eq_comm]

/-- A pure expression has no part but itself. -/
theorem isPartOf_of_isPure {part whole : Expr} (isPure : whole.isPure = true) :
    part.IsPartOf whole ↔ part = whole := by
  have noParts : whole.parts = [] := by
    cases whole <;> first | rfl | cases isPure
  rw [isPartOf_iff, noParts]
  simp

/-- Every part of an expression mentions another expression. -/
def Pervades (mention whole : Expr) : Prop := ∀ part, part.IsPartOf whole → mention.IsPartOf part

theorem pervades_of_isPure {mention : Expr} (isPure : mention.isPure = true) :
    mention.Pervades mention := by
  intro part isPart
  rw [(isPartOf_of_isPure isPure).mp isPart]
  exact .refl

/-- What pervades the direct parts of an expression pervades the expression. -/
theorem Pervades.of_parts {mention whole : Expr} (composed : whole.parts ≠ [])
    (pervades : ∀ direct ∈ whole.parts, mention.Pervades direct) : mention.Pervades whole := by
  intro part isPart
  rcases isPartOf_iff.mp isPart with rfl | ⟨direct, isDirect, inDirect⟩
  · obtain ⟨first, isFirst⟩ := List.exists_mem_of_ne_nil _ composed
    exact isPartOf_iff.mpr (.inr ⟨first, isFirst, pervades first isFirst first .refl⟩)
  · exact pervades direct isDirect part inDirect

/-! ## The two mentions -/

/-- The method and the receiver of a binding, whether its first parameter is rebound or not. -/
def binding? : Expr → Option (Expr × Expr)
  | .bind method receiver | .bindFirstParameterToThis (.bind method receiver) =>
      some (method, receiver)
  | _ => none

/-- What a member is read from, with type arguments for it or without. -/
def readFrom? : Expr → Option Expr
  | .member target _ | .instantiateMethod (.member target _) _ => some target
  | _ => none

end Script.Expr

open Script

variable {Source State : Type}

namespace Blueprint

variable (blueprint : Blueprint)

theorem withTypeArgs_cases (method : Expr) (typeArgs : List TypeRef) :
    typeArgs = [] ∧ withTypeArgs method typeArgs = method ∨
      typeArgs ≠ [] ∧ withTypeArgs method typeArgs = .instantiateMethod method typeArgs := by
  cases typeArgs with
  | nil => exact .inl ⟨rfl, rfl⟩
  | cons first rest => exact .inr ⟨List.cons_ne_nil _ _, rfl⟩

theorem rebound_cases (function : Expr) :
    blueprint.rebound function = function ∨
      blueprint.rebound function = .bindFirstParameterToThis function := by
  rw [rebound]
  split
  · exact .inr rfl
  · exact .inl rfl

theorem readFrom?_withTypeArgs (target : Expr) (name : String) (typeArgs : List TypeRef) :
    (withTypeArgs (.member target name) typeArgs).readFrom? = some target := by
  rcases withTypeArgs_cases (.member target name) typeArgs with ⟨-, alone⟩ | ⟨-, instantiated⟩
  · rw [alone, Expr.readFrom?]
  · rw [instantiated, Expr.readFrom?]

theorem binding?_binding (receiver : Expr) :
    (blueprint.binding receiver).binding? =
      some (withTypeArgs (.member receiver blueprint.name) blueprint.typeArgs, receiver) := by
  rw [binding]
  rcases blueprint.rebound_cases
    (.bind (withTypeArgs (.member receiver blueprint.name) blueprint.typeArgs) receiver) with
    plain | rebound
  · rw [plain, Expr.binding?]
  · rw [rebound, Expr.binding?]

/-- A member of a type is not bound to a receiver. -/
theorem binding?_memberOf (owner : TypeRef) : (blueprint.memberOf owner).binding? = none := by
  rw [memberOf]
  rcases withTypeArgs_cases (.member (.typeRef owner) blueprint.name) blueprint.typeArgs with
    ⟨-, method⟩ | ⟨-, method⟩ <;>
  · rw [method]
    rcases blueprint.rebound_cases _ with whole | whole <;> rw [whole] <;> rfl

/-- A base call is no binding of a member. -/
theorem binding?_baseCall (ancestor : TypeRef) :
    (blueprint.rebound (.bindBaseCall ancestor blueprint.name blueprint.typeArgs .self)).binding? =
      none := by
  rcases blueprint.rebound_cases _ with whole | whole <;> rw [whole] <;> rfl

theorem pervades_withTypeArgs {mention method : Expr} (pervades : mention.Pervades method)
    (typeArgs : List TypeRef) : mention.Pervades (withTypeArgs method typeArgs) := by
  rcases withTypeArgs_cases method typeArgs with ⟨-, alone⟩ | ⟨-, instantiated⟩
  · rw [alone]
    exact pervades
  · rw [instantiated]
    exact .of_parts (by simp [Expr.parts]) (by simpa [Expr.parts] using pervades)

/-- Every part of a binding mentions the receiver. -/
theorem pervades_binding {receiver : Expr} (isPure : receiver.isPure = true) :
    receiver.Pervades (blueprint.binding receiver) := by
  have self := Expr.pervades_of_isPure isPure
  have member : receiver.Pervades (.member receiver blueprint.name) :=
    .of_parts (by simp [Expr.parts]) (by simpa [Expr.parts] using self)
  have method := pervades_withTypeArgs member blueprint.typeArgs
  have bound : receiver.Pervades
      (.bind (withTypeArgs (.member receiver blueprint.name) blueprint.typeArgs) receiver) :=
    .of_parts (by simp [Expr.parts]) (by simpa [Expr.parts] using ⟨method, self⟩)
  rw [binding]
  rcases blueprint.rebound_cases _ with plain | rebound
  · rw [plain]
    exact bound
  · rw [rebound]
    exact .of_parts (by simp [Expr.parts]) (by simpa [Expr.parts] using bound)

end Blueprint

/-- How the receiver of a request becomes the expression that is bound, with the statements
that run before and the calls made to the evaluator.  No instance is bound without a receiver,
and none through `base`. -/
inductive Receiver.Becomes (evaluator : Evaluator Source State) (state : State) :
    Receiver Source → List Stmt → Expr → List (Call Source) → Prop where
  | implicitThis : Becomes evaluator state .implicitThis [] .self []
  | explicitThis : Becomes evaluator state .explicitThis [] .self []
  /-- A pure value is mentioned as it is. -/
  | pure {source : Source} {target : CompiledTarget}
      (compiles : (evaluator.compile source state).1 = target)
      (isPure : target.value.isPure = true) :
      Becomes evaluator state (.expression source) target.prerequisites target.value
        [.compile source target]
  /-- Any other value is kept in the one variable that is allocated. -/
  | stored {source : Source} {target : CompiledTarget}
      (compiles : (evaluator.compile source state).1 = target)
      (isImpure : target.value.isPure = false) (name : String) :
      Becomes evaluator state (.expression source)
        (target.prerequisites ++ [.declare name (some target.value)]) (.identifier name)
        [.compile source target, .allocate name]

theorem Receiver.Becomes.isPure {evaluator : Evaluator Source State} {state : State}
    {receiver : Receiver Source} {prerequisites : List Stmt} {value : Expr}
    {calls : List (Call Source)}
    (becomes : receiver.Becomes evaluator state prerequisites value calls) :
    value.isPure = true := by
  cases becomes with
  | implicitThis | explicitThis => rfl
  | pure compiles isPure => exact isPure
  | stored compiles isImpure name => rfl

/-- A bound method is bound to what the receiver of the request becomes. -/
theorem Blueprint.exists_becomes (blueprint : Blueprint) (evaluator : Evaluator Source State)
    (isBound : blueprint.shape = .bound) {receiver : Receiver Source}
    (notBase : receiver ≠ .base) (given : receiver ≠ .static) (state : State) :
    ∃ prerequisites value,
      (blueprint.build evaluator receiver state).1 = ⟨prerequisites, blueprint.binding value⟩ ∧
      receiver.Becomes evaluator state prerequisites value
        (blueprint.build evaluator.recorded receiver (state, [])).2.2 := by
  cases receiver with
  | static => exact (given rfl).elim
  | base => exact (notBase rfl).elim
  | implicitThis =>
      rw [blueprint.build_bound evaluator isBound, blueprint.build_bound evaluator.recorded isBound]
      exact ⟨[], .self, rfl, .implicitThis⟩
  | explicitThis =>
      rw [blueprint.build_bound evaluator isBound, blueprint.build_bound evaluator.recorded isBound]
      exact ⟨[], .self, rfl, .explicitThis⟩
  | expression source =>
      have once := blueprint.evaluatesOnce evaluator isBound source state
      generalize blueprint.build evaluator (.expression source) state = built at once ⊢
      generalize blueprint.build evaluator.recorded (.expression source) (state, []) = recorded
        at once ⊢
      rcases built with ⟨conversion, after⟩
      rcases recorded with ⟨result, final, calls⟩
      cases once with
      | pure isPure => exact ⟨_, _, rfl, .pure rfl isPure⟩
      | stored isImpure name => exact ⟨_, _, rfl, .stored rfl isImpure name⟩

/-- What an accepted request is converted to: a member of the declaring type, a call of what an
ancestor supplies, or a binding to what the receiver becomes. -/
inductive Accepted.ConvertsTo {env : Environment} {request : Request Source}
    (accepted : Accepted env request) (evaluator : Evaluator Source State) (state : State) :
    Conversion → Prop where
  | static {owner : TypeRef} (isStatic : (env.policies.method request.method).isStatic = true)
      (written : scriptType accepted.use = .ok owner) :
      ConvertsTo accepted evaluator state ⟨[], accepted.blueprint.memberOf owner⟩
  | baseCall {target : BaseTarget} {ancestor : TypeRef}
      (nonStatic : (env.policies.method request.method).isStatic = false)
      (isBase : request.receiver = .base)
      (supplies : env.index.baseTarget? accepted.current accepted.method = some target)
      (written : scriptType target.use = .ok ancestor) :
      ConvertsTo accepted evaluator state ⟨[], accepted.blueprint.rebound
        (.bindBaseCall ancestor accepted.blueprint.name accepted.blueprint.typeArgs .self)⟩
  | bound {prerequisites : List Stmt} {value : Expr}
      (nonStatic : (env.policies.method request.method).isStatic = false)
      (notBase : request.receiver ≠ .base)
      (becomes : request.receiver.Becomes evaluator state prerequisites value
        (env.calls evaluator request state)) :
      ConvertsTo accepted evaluator state ⟨prerequisites, accepted.blueprint.binding value⟩

namespace Environment

variable {env : Environment} {request : Request Source}

theorem exists_convertsTo {evaluator : Evaluator Source State} {state after : State}
    {conversion : Conversion}
    (converts : env.convert evaluator request state = (.ok conversion, after)) :
    ∃ accepted : Accepted env request, accepted.ConvertsTo evaluator state conversion := by
  obtain ⟨blueprint, isBlueprint, builds⟩ := convert_eq_ok_iff.mp converts
  have calls := calls_of_blueprint evaluator state isBlueprint
  obtain ⟨accepted, rfl⟩ := blueprint_eq_ok_iff.mp isBlueprint
  refine ⟨accepted, ?_⟩
  have shaped := accepted.shaped
  generalize isShape : accepted.shape = shape at shaped
  cases shaped with
  | static isStatic written =>
      rw [accepted.blueprint.build_static evaluator isShape] at builds
      cases builds
      exact .static isStatic written
  | baseCall nonStatic isBase supplies written =>
      rw [accepted.blueprint.build_baseCall evaluator isShape] at builds
      cases builds
      exact .baseCall nonStatic isBase supplies written
  | bound nonStatic notBase given =>
      obtain ⟨prerequisites, value, built, becomes⟩ :=
        accepted.blueprint.exists_becomes evaluator isShape notBase given state
      rw [builds] at built
      cases built
      rw [← calls] at becomes
      exact .bound nonStatic notBase becomes

/-- A conversion is a binding exactly if the policy does not make the method static and the
receiver is not `base`.  Then the member is read from the expression that is bound, which is
pure and is what the receiver of the request becomes.  A value that is kept in a variable
stands in the expression only if it mentions this variable. -/
theorem convert_mentions_receiver {evaluator : Evaluator Source State} {state after : State}
    {conversion : Conversion}
    (converts : env.convert evaluator request state = (.ok conversion, after)) :
    (conversion.expr.binding?.isSome = true ↔
      (env.policies.method request.method).isStatic = false ∧ request.receiver ≠ .base) ∧
    ∀ method receiver, conversion.expr.binding? = some (method, receiver) →
      method.readFrom? = some receiver ∧ receiver.isPure = true ∧
      request.receiver.Becomes evaluator state conversion.prerequisites receiver
        (env.calls evaluator request state) ∧
      ∀ source name, request.receiver = .expression source → receiver = .identifier name →
        (evaluator.compile source state).1.value.IsPartOf conversion.expr →
          (Expr.identifier name).IsPartOf (evaluator.compile source state).1.value := by
  obtain ⟨accepted, convertsTo⟩ := exists_convertsTo converts
  cases convertsTo with
  | static isStatic written =>
      rw [accepted.blueprint.binding?_memberOf]
      simp [isStatic]
  | baseCall nonStatic isBase supplies written =>
      rw [accepted.blueprint.binding?_baseCall]
      simp [isBase]
  | bound nonStatic notBase becomes =>
      rw [accepted.blueprint.binding?_binding]
      refine ⟨by simp [nonStatic, notBase], ?_⟩
      intro method receiver isBinding
      cases isBinding
      have isPure := becomes.isPure
      refine ⟨Blueprint.readFrom?_withTypeArgs _ _ _, isPure, becomes, ?_⟩
      intro source name isExpression isVariable isPart
      rw [← isVariable]
      exact accepted.blueprint.pervades_binding isPure _ isPart

end Environment

namespace Containers

/-- `Put` with its type argument, read from the variable `tmp1`. -/
def putOfTmp1 : Expr :=
  .instantiateMethod (.member (.identifier "tmp1") "Put") [.named ⟨"System", "String"⟩]

/-- What was taken is kept in `tmp1`, and both mentions read this variable. -/
theorem mentions_takenCall :
    environment.convert precompiled takenPut (.start "tmp") = (.ok takenCall, ⟨"tmp", 2⟩) ∧
      takenCall.expr.binding? = some (putOfTmp1, .identifier "tmp1") ∧
      putOfTmp1.readFrom? = some (.identifier "tmp1") ∧
      takenPut.receiver.Becomes precompiled (.start "tmp")
        [.declare "take" none, .declare "tmp1" (some taken.value)] (.identifier "tmp1")
        (environment.calls precompiled takenPut (.start "tmp")) ∧
      ¬ taken.value.IsPartOf takenCall.expr := by
  obtain ⟨-, mentions⟩ := Environment.convert_mentions_receiver converts_takenPut
  obtain ⟨reads, -, becomes, onlyIf⟩ := mentions _ _ rfl
  refine ⟨converts_takenPut, rfl, reads, becomes, ?_⟩
  intro isPart
  have reading := onlyIf taken "tmp1" rfl rfl isPart
  rcases Expr.isPartOf_iff.mp reading with same | ⟨callee, isCallee, inCallee⟩
  · cases same
  · cases List.mem_singleton.mp isCallee
    have same := (Expr.isPartOf_of_isPure rfl).mp inCallee
    simp at same

/-- `tmp1.Put`, although nothing was kept in `tmp1` yet. -/
def numbered : CompiledTarget := ⟨[], .member (.identifier "tmp1") "Put"⟩

/-- `tmp1.Put.Put`, converted to a delegate that takes an object and a string. -/
def numberedPut : Request CompiledTarget := { takenPut with receiver := .expression numbered }

/-- The value is kept in the variable that it reads. -/
def numberedCall : Conversion :=
  ⟨[.declare "tmp1" (some numbered.value)], .bind putOfTmp1 (.identifier "tmp1")⟩

/-- A value that reads the variable in which it is kept may stand in the expression. -/
theorem numbered_isPartOf_numberedCall :
    environment.convert precompiled numberedPut (.start "tmp") =
        (.ok numberedCall, ⟨"tmp", 2⟩) ∧
      environment.calls precompiled numberedPut (.start "tmp") =
        [.compile numbered numbered, .allocate "tmp1"] ∧
      numbered.value.isPure = false ∧ numbered.value.IsPartOf numberedCall.expr := by
  refine ⟨congrFun (convert_putInShelf environment.policies precompiled numberedPut.receiver) _,
    calls_putInShelf environment.policies precompiled numberedPut.receiver _, rfl, ?_⟩
  have inMethod : numbered.value.IsPartOf putOfTmp1 :=
    .single (List.mem_singleton_self numbered.value)
  exact inMethod.tail (List.mem_cons_self : putOfTmp1 ∈ numberedCall.expr.parts)

end Containers

end MethodGroups
