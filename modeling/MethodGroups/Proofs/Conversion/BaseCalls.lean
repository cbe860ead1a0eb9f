import MethodGroups.Proofs.Conversion.GivenArguments
import MethodGroups.Proofs.Hierarchy.Slots
import MethodGroups.Proofs.Inference.Spellings

/-!
# Base calls depend only on the slot

A conversion through `base` runs what the nearest ancestor has in the slot of the
method.  Which method of the slot the source names makes no difference: seen from the
current type all of them have one signature, so the same type arguments are inferred,
and the search for the implementation only asks for the name and the slot.
-/

namespace MethodGroups

namespace TypeIndex

/-- The type declares the method or inherits it from an ancestor. -/
def Has (index : TypeIndex) (type : TypeDef) (method : MethodDef) : Prop :=
  ∃ seen ∈ index.lineage type, index.Declares seen.type method

instance (index : TypeIndex) (type : TypeDef) (method : MethodDef) :
    Decidable (index.Has type method) :=
  inferInstanceAs (Decidable (∃ seen ∈ index.lineage type, index.Declares seen.type method))

namespace WellFormed

variable {index : TypeIndex} (wellFormed : index.WellFormed)

include wellFormed

/-- The parameter types of a method, seen through the use of its declaring type, are
those of its signature. -/
theorem formals_erased {seen : Ancestor} (known : seen.type ∈ index.types) {method : MethodDef}
    (declares : index.Declares seen.type method) :
    (index.formals method seen.use.args).map Ty.erased =
      (method.signature seen.subst).params := by
  have declaring : index.type? method.declaring = some seen.type := by
    rw [declares.2]
    exact wellFormed.consistent.type?_id known
  rw [formals, declaringSubst, declaring, List.map_map]
  rfl

/-- The parameter types of the methods of one slot are the same, seen from a type that
has them. -/
theorem formals_same_of_slotRoot (scopedMethods : index.MethodsScoped) {current : TypeDef}
    (known : current ∈ index.types) {left right : Ancestor} {first second : MethodDef}
    (leftMet : left ∈ index.lineage current) (rightMet : right ∈ index.lineage current)
    (firstDeclared : index.Declares left.type first)
    (secondDeclared : index.Declares right.type second)
    (sameSlot : (index.slotRoot first).id = (index.slotRoot second).id) :
    first.name = second.name ∧ first.typeParams.length = second.typeParams.length ∧
      List.Forall₂ Ty.Same (index.formals first left.use.args)
        (index.formals second right.use.args) := by
  have signatures := wellFormed.signature_eq_of_slotRoot known scopedMethods leftMet rightMet
    firstDeclared secondDeclared sameSlot
  have leftKnown := (wellFormed.mem_lineage known leftMet).1
  have rightKnown := (wellFormed.mem_lineage known rightMet).1
  refine ⟨congrArg SlotSignature.name signatures, congrArg SlotSignature.arity signatures, ?_⟩
  rw [Ty.Same.forall₂_iff, wellFormed.formals_erased leftKnown firstDeclared,
    wellFormed.formals_erased rightKnown secondDeclared, signatures]

end WellFormed

/-- What a base call runs depends only on the name and the slot of the method. -/
theorem baseTarget?_congr (index : TypeIndex) (current : TypeDef) {first second : MethodDef}
    (firstSlot : first.hasSlot = true) (secondSlot : second.hasSlot = true)
    (names : first.name = second.name)
    (sameSlot : (index.slotRoot first).id = (index.slotRoot second).id) :
    index.baseTarget? current first = index.baseTarget? current second := by
  rw [MethodDef.hasSlot, Bool.and_eq_true] at firstSlot secondSlot
  rw [baseTarget?, baseTarget?, if_pos firstSlot.2, if_pos secondSlot.2, names, sameSlot]

end TypeIndex

variable {Source State : Type}

/-- The request, for another method. -/
def Request.forMethod (request : Request Source) (method : MethodDef) : Request Source :=
  { request with method := method.id }

namespace Environment

variable {env : Environment} {request : Request Source}

/-- Without given arguments the declaring type is used as the current type sees it. -/
theorem declaringUse_of_mem_lineage (wellFormed : env.index.WellFormed) {current : TypeDef}
    (known : current ∈ env.index.types) (noArgs : request.declaringArgs = []) {seen : Ancestor}
    (met : seen ∈ env.index.lineage current) :
    env.declaringUse request current seen.type = .ok seen.use := by
  have isSeen : env.index.ancestorUse? current seen.type.id = some seen.use :=
    (wellFormed.ancestorUse?_eq_some_iff known).mpr ⟨seen, met, rfl, rfl⟩
  rw [declaringUse, noArgs, isSeen]
  rfl

theorem scriptTypeArgs_congr (varFree : env.index.SignaturesVarFree)
    (delegateFree : request.delegate.VarFree) {first second : MethodDef}
    (arities : first.typeParams.length = second.typeParams.length) {firstUse secondUse : Ty}
    (sides : List.Forall₂ Ty.Same (env.index.formals first firstUse.args)
      (env.index.formals second secondUse.args))
    {policy : MethodPolicy} {typeArgs : List Script.TypeRef}
    (succeeds : env.scriptTypeArgs request first policy firstUse = .ok typeArgs) :
    env.scriptTypeArgs request second policy secondUse = .ok typeArgs := by
  have sameArgs : ∀ args, env.typeArgs request first firstUse = .ok args →
      env.typeArgs request second secondUse = .ok args := by
    intro args given
    rw [Environment.typeArgs] at given ⊢
    split at given
    case isTrue inferred =>
      rw [if_pos inferred]
      rw [Outcome.mapError_eq_ok_iff] at given ⊢
      exact TypeIndex.inferTypeArgs_alike varFree arities sides delegateFree given
    case isFalse explicit =>
      rw [if_neg explicit, ← arities]
      split at given
      case isTrue counts =>
        rw [if_pos counts]
        exact given
      case isFalse => cases given
  rw [scriptTypeArgs] at succeeds ⊢
  rw [← MethodSig.isGeneric_eq arities]
  split at succeeds
  case isTrue generic =>
    rw [if_pos generic]
    rw [Outcome.bind_eq_ok_iff] at succeeds ⊢
    obtain ⟨args, given, written⟩ := succeeds
    exact ⟨args, sameArgs args given, written⟩
  case isFalse plain =>
    rw [if_neg plain]
    exact succeeds

theorem shape_base_congr (isBase : request.receiver = .base) {policy : MethodPolicy}
    (nonStatic : policy.isStatic = false) {current : TypeDef} {first second : MethodDef}
    (targets : env.index.baseTarget? current first = env.index.baseTarget? current second)
    {firstUse secondUse : Ty} {shape : Shape}
    (succeeds : env.shape request current first policy firstUse = .ok shape) :
    env.shape request current second policy secondUse = .ok shape := by
  simp only [Environment.shape, nonStatic, isBase, Bool.false_eq_true, if_false] at succeeds ⊢
  rw [← targets]
  cases target : env.index.baseTarget? current first with
  | none =>
      rw [target] at succeeds
      cases succeeds
  | some found =>
      rw [target] at succeeds
      exact succeeds

section Slots

variable (wellFormed : env.index.WellFormed) (scopedMethods : env.index.MethodsScoped)
variable (varFree : env.index.SignaturesVarFree)
variable {current : TypeDef} (isCurrent : env.index.type? request.current = some current)
variable (isBase : request.receiver = .base) (noArgs : request.declaringArgs = [])
variable (delegateFree : request.delegate.VarFree)
variable {first second : MethodDef}
variable (firstHas : env.index.Has current first) (secondHas : env.index.Has current second)
variable (firstSlot : first.hasSlot = true) (secondSlot : second.hasSlot = true)
variable (sameSlot : (env.index.slotRoot first).id = (env.index.slotRoot second).id)
variable (samePolicy : env.policies.method first.id = env.policies.method second.id)
variable (nonStatic : (env.policies.method first.id).isStatic = false)

include wellFormed scopedMethods varFree isCurrent isBase noArgs delegateFree firstHas secondHas
  firstSlot secondSlot sameSlot samePolicy nonStatic

theorem blueprint_base_of_slotRoot {blueprint : Blueprint}
    (succeeds : env.blueprint (request.forMethod first) = .ok blueprint) :
    env.blueprint (request.forMethod second) = .ok blueprint := by
  have known : current ∈ env.index.types := List.mem_of_getElem? isCurrent
  obtain ⟨left, leftMet, firstDeclared⟩ := firstHas
  obtain ⟨right, rightMet, secondDeclared⟩ := secondHas
  have leftKnown := (wellFormed.mem_lineage known leftMet).1
  have rightKnown := (wellFormed.mem_lineage known rightMet).1
  obtain ⟨names, arities, sides⟩ := wellFormed.formals_same_of_slotRoot scopedMethods known
    leftMet rightMet firstDeclared secondDeclared sameSlot
  have targets := env.index.baseTarget?_congr current firstSlot secondSlot names sameSlot
  obtain ⟨accepted, rfl⟩ := blueprint_eq_ok_iff.mp succeeds
  -- The checks of the first request found what the hypotheses describe.
  have isFirst : accepted.method = first := by
    have found := wellFormed.consistent.method?_id firstDeclared.1
    exact Option.some.inj (accepted.isMethod.symm.trans found)
  have isSame : accepted.current = current :=
    Option.some.inj (accepted.isCurrent.symm.trans isCurrent)
  have isLeft : accepted.declaring = left.type := by
    have declaring := accepted.isDeclaring
    rw [isFirst, firstDeclared.2, wellFormed.consistent.type?_id leftKnown] at declaring
    exact (Option.some.inj declaring).symm
  have isLeftUse : accepted.use = left.use := by
    have use := accepted.isUse
    have expected : env.declaringUse (request.forMethod first) current left.type =
        .ok left.use := declaringUse_of_mem_lineage wellFormed known noArgs leftMet
    rw [isSame, isLeft, expected] at use
    exact (Outcome.ok.inj use).symm
  have typeArgs := accepted.isTypeArgs
  have shape := accepted.isShape
  rw [isFirst, isLeftUse] at typeArgs shape
  rw [isSame] at shape
  exact blueprint_eq_ok_iff.mpr ⟨{
    method := second
    current := current
    delegate := accepted.delegate
    declaring := right.type
    use := right.use
    typeArgs := accepted.typeArgs
    shape := accepted.shape
    isMethod := wellFormed.consistent.method?_id secondDeclared.1
    isCurrent := isCurrent
    usable := samePolicy ▸ accepted.usable
    isDelegate := accepted.isDelegate
    expandsAlike := samePolicy ▸ accepted.expandsAlike
    isDeclaring := by
      rw [secondDeclared.2]
      exact wellFormed.consistent.type?_id rightKnown
    isUse := declaringUse_of_mem_lineage wellFormed known noArgs rightMet
    isTypeArgs := samePolicy ▸ scriptTypeArgs_congr varFree delegateFree arities sides typeArgs
    isShape := samePolicy ▸ shape_base_congr isBase nonStatic targets shape },
    congrArg (fun policy : MethodPolicy => (⟨accepted.shape, policy.name, accepted.typeArgs,
      (env.policies.delegate accepted.delegate.id).bindThisToFirstParameter⟩ : Blueprint))
      samePolicy.symm⟩

/-- A base conversion of one method of a slot succeeds exactly if that of any other
one does, and with the same result. -/
theorem convert_base_iff_of_slotRoot (evaluator : Evaluator Source State) (state after : State)
    (conversion : Conversion) :
    env.convert evaluator (request.forMethod first) state = (.ok conversion, after) ↔
      env.convert evaluator (request.forMethod second) state = (.ok conversion, after) := by
  have secondNonStatic : (env.policies.method second.id).isStatic = false :=
    samePolicy ▸ nonStatic
  rw [convert_eq_ok_iff, convert_eq_ok_iff]
  constructor
  · intro holds
    rcases holds with ⟨blueprint, isBlueprint, built⟩
    have other := blueprint_base_of_slotRoot wellFormed scopedMethods varFree isCurrent isBase
      noArgs delegateFree firstHas secondHas firstSlot secondSlot sameSlot samePolicy nonStatic
      isBlueprint
    exact ⟨blueprint, other, built⟩
  · intro holds
    rcases holds with ⟨blueprint, isBlueprint, built⟩
    have other := blueprint_base_of_slotRoot wellFormed scopedMethods varFree isCurrent isBase
      noArgs delegateFree secondHas firstHas secondSlot firstSlot sameSlot.symm samePolicy.symm
      secondNonStatic isBlueprint
    exact ⟨blueprint, other, built⟩

end Slots

end Environment

namespace Containers

/-- Every method is called `Put` in script. -/
def environment : Environment := ⟨index, ⟨fun _ => .normal "Put" false, fun _ => .plain⟩⟩

/-- `Put` in `Shelf`, converted to a delegate that takes an object and a string. -/
def putInShelf {Source : Type} (receiver : Receiver Source) : Request Source :=
  ⟨⟨0⟩, [], [], .named ⟨"", "Sink"⟩ [.object, .string], receiver, ⟨3⟩, .origin⟩

/-- The label is inferred to be a string, so this type argument may as well be given. -/
theorem convert_putInShelf {Source State : Type} (policies : Policies)
    (evaluator : Evaluator Source State) (receiver : Receiver Source) :
    Environment.convert ⟨index, policies⟩ evaluator (putInShelf receiver) =
      Environment.convert ⟨index, policies⟩ evaluator
        ((putInShelf receiver).withTypeArgs [.string]) := by
  have inferred : index.inferTypeArgs boxPut [.object]
      (.named ⟨"", "Sink"⟩ [.object, .string]) = .ok [.string] :=
    TypeIndex.inferTypeArgs_of_unifyAllFor 2 rfl rfl rfl rfl rfl
  exact Environment.convert_of_inferred rfl rfl rfl rfl rfl rfl inferred evaluator

/-- `base.Put` in `Shelf`. -/
def basePut : Request Unit := putInShelf .base

/-- An evaluator that a base call never asks. -/
def idle : Evaluator Unit Unit := ⟨fun _ => pure ⟨[], .self⟩, pure ""⟩

def crateCall : Conversion :=
  ⟨[], .bindBaseCall (.instantiated ⟨"", "Crate"⟩ [.named ⟨"System", "Object"⟩]) "Put"
    [.named ⟨"System", "String"⟩] .self⟩

/-- `Put` of `Box<T>` and of `Crate<U>` are both converted to a call of `Crate<Object>`. -/
theorem convert_basePut :
    environment.convert idle (basePut.forMethod boxPut) () = (.ok crateCall, ()) ∧
      environment.convert idle (basePut.forMethod cratePut) () = (.ok crateCall, ()) := by
  have boxCall : environment.convert idle (basePut.forMethod boxPut) () =
      (.ok crateCall, ()) := congrFun (convert_putInShelf environment.policies idle .base) ()
  have sameCalls := @Environment.convert_base_iff_of_slotRoot Unit Unit environment basePut
    wellFormed methodsScoped signaturesVarFree shelf (by decide +kernel) rfl rfl (by decide)
    boxPut cratePut (by decide +kernel) (by decide +kernel) rfl rfl (by decide +kernel) rfl rfl
    idle () () crateCall
  exact ⟨boxCall, sameCalls.mp boxCall⟩

end Containers

end MethodGroups
