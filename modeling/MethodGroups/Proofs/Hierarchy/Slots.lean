import MethodGroups.Hierarchy.Slots
import MethodGroups.Proofs.Hierarchy.Ancestors

/-!
# A slot fixes a signature

A method overrides another one when both have the same signature, the other one
seen through its use.  Signatures are compared without the spelling of type
parameters, so they are values that can be chained: seen from one type, a method,
the method it overrides, and so on up to the root of its slot all have one
signature.
-/

namespace MethodGroups

/-- What two methods of one slot have in common: the name, the number of type
parameters, and the parameter types without spellings. -/
structure SlotSignature where
  name : String
  arity : Nat
  params : List Ty
  deriving DecidableEq

/-- The signature seen through a substitution. -/
def SlotSignature.through (signature : SlotSignature) (substitution : Subst) : SlotSignature :=
  { signature with params := signature.params.map fun ty => (ty.subst substitution).erased }

/-- The signature of a method whose declaring type is seen through a substitution. -/
def MethodDef.signature (method : MethodDef) (substitution : Subst) : SlotSignature :=
  ⟨method.name, method.typeParams.length,
    method.params.map fun param => (param.ty.subst substitution).erased⟩

theorem MethodDef.matchesSignature_iff (method other : MethodDef) (substitution : Subst) :
    method.matchesSignature other substitution = true ↔
      method.signature [] = other.signature substitution := by
  have paramsAgree : method.params.length = other.params.length →
      (((method.params.zip other.params).all fun pair =>
          decide (pair.1.ty.Same (pair.2.ty.subst substitution))) = true ↔
        (method.params.map fun param => (param.ty.subst []).erased) =
          other.params.map fun param => (param.ty.subst substitution).erased) := by
    generalize method.params = own
    generalize other.params = its
    intro lengths
    induction own generalizing its with
    | nil =>
        cases its with
        | nil => simp
        | cons => cases lengths
    | cons first rest ih =>
        cases its with
        | nil => cases lengths
        | cons other others =>
            have tail := ih others (by simpa using lengths)
            simp only [List.zip_cons_cons, List.all_cons, Bool.and_eq_true, decide_eq_true_eq,
              List.map_cons, List.cons.injEq, tail, Ty.subst_nil]
            exact Iff.rfl
  simp only [matchesSignature, signature, SlotSignature.mk.injEq, Bool.and_eq_true,
    decide_eq_true_eq]
  constructor
  · intro holds
    rcases holds with ⟨⟨⟨names, arities⟩, lengths⟩, types⟩
    exact ⟨names, arities, (paramsAgree lengths).mp types⟩
  · intro holds
    rcases holds with ⟨names, arities, types⟩
    have lengths : method.params.length = other.params.length := by
      simpa using congrArg List.length types
    exact ⟨⟨⟨names, arities⟩, lengths⟩, (paramsAgree lengths).mpr types⟩

theorem MethodDef.signature_nil_through (method : MethodDef) (substitution : Subst) :
    (method.signature []).through substitution = method.signature substitution := by
  simp only [SlotSignature.through, signature, List.map_map, SlotSignature.mk.injEq, true_and]
  apply List.map_congr_left
  intro param _
  have erasure : param.ty.erased.Same param.ty := Ty.Same.of_erased param.ty
  simp only [Function.comp_apply, Ty.subst_nil]
  exact erasure.subst substitution

/-- From inside its declaring type a method has the signature that it declares. -/
theorem MethodDef.signature_self (method : MethodDef) (type : TypeDef) :
    method.signature (type.argSubst type.selfTy.args) = method.signature [] := by
  simp only [signature, SlotSignature.mk.injEq, true_and]
  apply List.map_congr_left
  intro param _
  rw [Ty.subst_nil]
  exact type.subst_selfArgs param.ty

/-- A signature seen through a use, and this through another one, is the signature
seen through both. -/
theorem MethodDef.signature_through {method : MethodDef} {ancestor : Ancestor}
    (ownParams : method.ScopedIn ancestor.type)
    (isUse : ancestor.type.IsUse ancestor.use) (lower : TypeDef) (args : List Ty) :
    (method.signature ancestor.subst).through (lower.argSubst args) =
      method.signature (ancestor.through (lower.argSubst args)).subst := by
  have substEq : (ancestor.through (lower.argSubst args)).subst =
      ancestor.subst.through (lower.argSubst args) := by
    rw [Ancestor.subst, Ancestor.subst, TypeDef.through_argSubst]
    exact congrArg ancestor.type.argSubst (isUse.subst (lower.argSubst args)).2
  rw [substEq]
  simp only [SlotSignature.through, signature, List.map_map, SlotSignature.mk.injEq, true_and]
  apply List.map_congr_left
  intro param declared
  have erasure := Ty.Same.of_erased (param.ty.subst ancestor.subst)
  have chained : (param.ty.subst ancestor.subst).subst (lower.argSubst args) =
      param.ty.subst (ancestor.subst.through (lower.argSubst args)) := by
    apply Ty.subst_through
    intro p mentioned
    rcases ownParams param declared p mentioned with ofType | ofMethod
    · exact .inl (TypeDef.isSome_image?_argSubst isUse.arity ofType)
    · exact .inr (lower.image?_argSubst_of_method args ofMethod.1)
  rw [← chained]
  exact erasure.subst (lower.argSubst args)

namespace TypeIndex

/-- A type in its open form, followed by its ancestors. -/
def lineage (index : TypeIndex) (type : TypeDef) : List Ancestor :=
  ⟨type, type.selfTy⟩ :: index.ancestors type

/-- The search for a use goes through the lineage. -/
theorem ancestorUse?_eq_find? (index : TypeIndex) (type : TypeDef) (id : TypeId) :
    index.ancestorUse? type id =
      ((index.lineage type).find? fun seen => seen.type.id = id).map Ancestor.use := by
  rw [ancestorUse?, lineage, List.find?_cons]
  by_cases own : type.id = id <;> simp [own]

theorem mem_lineage_of_ancestorUse? {index : TypeIndex} {type : TypeDef} {id : TypeId} {use : Ty}
    (views : index.ancestorUse? type id = some use) :
    ∃ seen ∈ index.lineage type, seen.type.id = id ∧ seen.use = use := by
  rw [ancestorUse?_eq_find?] at views
  obtain ⟨seen, found, isUse⟩ := Option.map_eq_some_iff.mp views
  exact ⟨seen, List.mem_of_find?_eq_some found, by simpa using List.find?_some found, isUse⟩

/-- The method is known and declared by the type. -/
def Declares (index : TypeIndex) (type : TypeDef) (method : MethodDef) : Prop :=
  method ∈ index.methods ∧ method.declaring = type.id

instance (index : TypeIndex) (type : TypeDef) (method : MethodDef) :
    Decidable (index.Declares type method) :=
  inferInstanceAs (Decidable (_ ∧ _))

namespace Consistent

variable {index : TypeIndex} (consistent : index.Consistent)

include consistent

theorem mem_methodsNamed {type : TypeDef} {name : String} {method : MethodDef}
    (known : type ∈ index.types) :
    method ∈ index.methodsNamed type name ↔ index.Declares type method ∧ method.name = name := by
  rw [methodsNamed, List.mem_filter, consistent.mem_methodsOf known, decide_eq_true_eq]
  rfl

theorem exists_declares {method : MethodDef} (methodKnown : method ∈ index.methods) :
    ∃ type ∈ index.types, index.Declares type method := by
  obtain ⟨type, declaring, -⟩ := consistent.listed method methodKnown
  have ids := consistent.id_of_type? declaring
  exact ⟨type, List.mem_of_getElem? declaring, methodKnown, ids.symm⟩

end Consistent

namespace Unambiguous

variable {index : TypeIndex} (unambiguous : index.Unambiguous)
variable {type : TypeDef} (known : type ∈ index.types)

include unambiguous known

/-- What a type sees as an ancestor refers to the ancestor. -/
theorem defOf?_of_mem_ancestors {ancestor : Ancestor} (met : ancestor ∈ index.ancestors type) :
    index.defOf? ancestor.use = some ancestor.type :=
  unambiguous.consistent.defOf?_of_mem_climb (unambiguous.defOf?_selfTy known) met

/-- A method overrides a method of an ancestor that has a slot and the same signature. -/
theorem exists_of_overridden? {method above : MethodDef} (declares : index.Declares type method)
    (found : index.overridden? method = some above) :
    ∃ ancestor ∈ index.ancestors type, index.Declares ancestor.type above ∧
      above.hasSlot = true ∧ method.signature [] = above.signature ancestor.subst := by
  have declaring : index.type? method.declaring = some type := by
    rw [declares.2]
    exact unambiguous.consistent.type?_id known
  simp only [overridden?, declaring, Option.bind_eq_bind, Option.bind_some] at found
  obtain ⟨ancestor, met, here⟩ := List.exists_of_findSome?_eq_some found
  have ancestorKnown := mem_of_defOf? (unambiguous.defOf?_of_mem_ancestors known met)
  have named := (unambiguous.consistent.mem_methodsNamed ancestorKnown).mp
    (List.mem_of_find?_eq_some here)
  have matching := List.find?_some here
  rw [Bool.and_eq_true, MethodDef.matchesSignature_iff] at matching
  exact ⟨ancestor, met, named.1, matching⟩

end Unambiguous

namespace WellNamed

variable {index : TypeIndex} (wellNamed : index.WellNamed)
variable {type : TypeDef} (known : type ∈ index.types)

include wellNamed known

theorem mem_lineage {seen : Ancestor} (met : seen ∈ index.lineage type) :
    seen.type ∈ index.types ∧ seen.type.IsUse seen.use := by
  rcases List.mem_cons.mp met with rfl | above
  · exact ⟨known, .selfTy type⟩
  · exact wellNamed.mem_climb known (.selfTy type) above

/-- A type is seen from another one through a use of it. -/
theorem exists_of_ancestorUse? {id : TypeId} {use : Ty}
    (views : index.ancestorUse? type id = some use) :
    ∃ seen, index.type? id = some seen ∧ seen.IsUse use := by
  obtain ⟨seen, met, rfl, rfl⟩ := mem_lineage_of_ancestorUse? views
  obtain ⟨seenKnown, isUse⟩ := wellNamed.mem_lineage known met
  exact ⟨seen.type, wellNamed.consistent.type?_id seenKnown, isUse⟩

/-- A base call goes to a use of the type that declares what is run. -/
theorem exists_of_baseTarget? {method : MethodDef} {target : BaseTarget}
    (supplies : index.baseTarget? type method = some target) :
    ∃ supplier, index.type? target.method.declaring = some supplier ∧
      supplier.IsUse target.use := by
  rw [baseTarget?] at supplies
  split at supplies
  · obtain ⟨ancestor, met, here⟩ := List.exists_of_findSome?_eq_some supplies
    obtain ⟨member, isMember, rfl⟩ := Option.map_eq_some_iff.mp here
    obtain ⟨ancestorKnown, isUse⟩ := wellNamed.mem_climb known (.selfTy type) met
    have declares := ((wellNamed.consistent.mem_methodsNamed ancestorKnown).mp
      (List.mem_of_find?_eq_some isMember)).1
    refine ⟨ancestor.type, ?_, isUse⟩
    rw [declares.2]
    exact wellNamed.consistent.type?_id ancestorKnown
  · obtain ⟨use, views, rfl⟩ := Option.map_eq_some_iff.mp supplies
    exact wellNamed.exists_of_ancestorUse? known views

end WellNamed

namespace WellFormed

variable {index : TypeIndex} (wellFormed : index.WellFormed)
variable {type : TypeDef} (known : type ∈ index.types)

include wellFormed

theorem mem_methodsNamed {name : String} {method : MethodDef} (known : type ∈ index.types) :
    method ∈ index.methodsNamed type name ↔ index.Declares type method ∧ method.name = name :=
  wellFormed.consistent.mem_methodsNamed known

theorem exists_declares {method : MethodDef} (methodKnown : method ∈ index.methods) :
    ∃ type ∈ index.types, index.Declares type method :=
  wellFormed.consistent.exists_declares methodKnown

theorem eq_of_method_id_eq {left right : MethodDef} (leftKnown : left ∈ index.methods)
    (rightKnown : right ∈ index.methods) (ids : left.id = right.id) : left = right := by
  have found := wellFormed.consistent.method?_id leftKnown
  rw [ids, wellFormed.consistent.method?_id rightKnown] at found
  exact (Option.some.inj found).symm

include known

theorem mem_lineage {seen : Ancestor} (met : seen ∈ index.lineage type) :
    seen.type ∈ index.types ∧ seen.type.IsUse seen.use :=
  wellFormed.wellNamed.mem_lineage known met

theorem eq_of_mem_lineage {left right : Ancestor} (leftMet : left ∈ index.lineage type)
    (rightMet : right ∈ index.lineage type) (ids : left.type.id = right.type.id) :
    left = right := by
  have distinct : ((index.lineage type).map (·.type.id)).Nodup := by
    rw [lineage, List.map_cons, List.nodup_cons, ancestors_eq_above]
    exact wellFormed.nodup_above known (.selfTy type)
  exact List.inj_on_of_nodup_map distinct leftMet rightMet ids

/-- What is above a type in the lineage is above the lower type as well, seen through the
use of the type. -/
theorem through_mem_ancestors {seen ancestor : Ancestor} (met : seen ∈ index.lineage type)
    (above_seen : ancestor ∈ index.ancestors seen.type) :
    ancestor.through seen.subst ∈ index.ancestors type := by
  obtain ⟨seenKnown, seenUse⟩ := wellFormed.mem_lineage known met
  have image : ancestor.through seen.subst ∈ index.above seen.use := by
    rw [wellFormed.above_eq_map seenKnown seenUse]
    exact List.mem_map_of_mem above_seen
  rcases List.mem_cons.mp met with rfl | isAncestor
  · exact image
  · obtain ⟨before, split⟩ := wellFormed.above_split known (.selfTy type) isAncestor
    rw [ancestors_eq_above, split]
    exact List.mem_append_right _ (List.mem_cons_of_mem _ image)

/-- A type is seen as its lineage shows it. -/
theorem ancestorUse?_eq_some_iff {id : TypeId} {use : Ty} :
    index.ancestorUse? type id = some use ↔
      ∃ seen ∈ index.lineage type, seen.type.id = id ∧ seen.use = use := by
  refine ⟨mem_lineage_of_ancestorUse?, ?_⟩
  intro holds
  rcases holds with ⟨seen, met, ids, rfl⟩
  rw [ancestorUse?_eq_find?, Option.map_eq_some_iff]
  cases found : (index.lineage type).find? fun seen => seen.type.id = id with
  | none =>
      have missing := List.find?_eq_none.mp found seen met
      simp [ids] at missing
  | some first =>
      have firstIds : first.type.id = id := by simpa using List.find?_some found
      have firstMet := List.mem_of_find?_eq_some found
      refine ⟨first, rfl, ?_⟩
      rw [wellFormed.eq_of_mem_lineage known firstMet met (firstIds.trans ids.symm)]

/-! ## Overriding keeps the signature -/

variable (scopedMethods : index.MethodsScoped)

include scopedMethods

/-- Seen from a lower type, a method and the method that it overrides have the same
signature. -/
theorem signature_overridden {seen : Ancestor} {method above : MethodDef}
    (met : seen ∈ index.lineage type) (declares : index.Declares seen.type method)
    (found : index.overridden? method = some above) :
    ∃ higher ∈ index.ancestors type, index.Declares higher.type above ∧
      above.signature higher.subst = method.signature seen.subst := by
  obtain ⟨seenKnown, seenUse⟩ := wellFormed.mem_lineage known met
  obtain ⟨ancestor, above_seen, aboveDeclared, -, signatures⟩ :=
    wellFormed.unambiguous.exists_of_overridden? seenKnown declares found
  have ancestorMet := wellFormed.through_mem_ancestors known met above_seen
  obtain ⟨ancestorKnown, ancestorUse⟩ :=
    wellFormed.mem_above seenKnown (.selfTy seen.type) above_seen
  have ownParams := scopedMethods above aboveDeclared.1 ancestor.type (by
    rw [aboveDeclared.2]
    exact wellFormed.consistent.type?_id ancestorKnown)
  refine ⟨ancestor.through seen.subst, ancestorMet, aboveDeclared, ?_⟩
  calc above.signature (ancestor.through seen.subst).subst
      = (above.signature ancestor.subst).through seen.subst :=
        (MethodDef.signature_through ownParams ancestorUse seen.type seen.args).symm
    _ = (method.signature []).through seen.subst := by rw [signatures]
    _ = method.signature seen.subst := method.signature_nil_through seen.subst

theorem signature_slotRootWithin (count : Nat) {seen : Ancestor} {method : MethodDef}
    (met : seen ∈ index.lineage type) (declares : index.Declares seen.type method) :
    ∃ higher ∈ index.lineage type,
      index.Declares higher.type (index.slotRootWithin count method) ∧
        (index.slotRootWithin count method).signature higher.subst =
          method.signature seen.subst := by
  induction count generalizing seen method with
  | zero => exact ⟨seen, met, declares, rfl⟩
  | succ count ih =>
      rw [slotRootWithin]
      split
      · cases found : index.overridden? method with
        | none => exact ⟨seen, met, declares, rfl⟩
        | some above =>
            obtain ⟨higher, higherMet, aboveDeclared, signatures⟩ :=
              wellFormed.signature_overridden known scopedMethods met declares found
            obtain ⟨root, rootMet, rootDeclared, rootSignature⟩ :=
              ih (List.mem_cons_of_mem _ higherMet) aboveDeclared
            exact ⟨root, rootMet, rootDeclared, rootSignature.trans signatures⟩
      · exact ⟨seen, met, declares, rfl⟩

/-- A slot fixes a signature: seen from one type, all methods of a slot agree on the
name, the number of type parameters and the parameter types. -/
theorem signature_eq_of_slotRoot {left right : Ancestor} {first second : MethodDef}
    (leftMet : left ∈ index.lineage type) (rightMet : right ∈ index.lineage type)
    (firstDeclared : index.Declares left.type first)
    (secondDeclared : index.Declares right.type second)
    (sameSlot : (index.slotRoot first).id = (index.slotRoot second).id) :
    first.signature left.subst = second.signature right.subst := by
  obtain ⟨leftRoot, leftRootMet, leftDeclares, leftSignature⟩ :=
    wellFormed.signature_slotRootWithin known scopedMethods index.methods.length leftMet
      firstDeclared
  obtain ⟨rightRoot, rightRootMet, rightDeclares, rightSignature⟩ :=
    wellFormed.signature_slotRootWithin known scopedMethods index.methods.length rightMet
      secondDeclared
  rw [← slotRoot] at leftDeclares leftSignature rightDeclares rightSignature
  have sameRoot := wellFormed.eq_of_method_id_eq leftDeclares.1 rightDeclares.1 sameSlot
  rw [sameRoot] at leftDeclares leftSignature
  have sameUse := wellFormed.eq_of_mem_lineage known leftRootMet rightRootMet
    (leftDeclares.2.symm.trans rightDeclares.2)
  rw [← leftSignature, ← rightSignature, sameUse]

end WellFormed

/-! ## The walk to the root of a slot -/

/-- The number of methods whose declaring type ranks below that of a method. -/
def methodsBelow (index : TypeIndex) (rank : TypeId → Nat) (method : MethodDef) : Nat :=
  index.methods.countP fun other => decide (rank other.declaring < rank method.declaring)

namespace Unambiguous

variable {index : TypeIndex} (unambiguous : index.Unambiguous)

include unambiguous

/-- A method overrides a known method of its name. -/
theorem overridden?_known {method above : MethodDef} (methodKnown : method ∈ index.methods)
    (found : index.overridden? method = some above) :
    above ∈ index.methods ∧ above.name = method.name := by
  obtain ⟨type, known, declares⟩ := unambiguous.consistent.exists_declares methodKnown
  obtain ⟨_, _, aboveDeclared, -, signatures⟩ :=
    unambiguous.exists_of_overridden? known declares found
  exact ⟨aboveDeclared.1, (congrArg SlotSignature.name signatures).symm⟩

theorem overridden?_lt {rank : TypeId → Nat} (ranked : index.Ranked rank)
    {method above : MethodDef} (methodKnown : method ∈ index.methods)
    (found : index.overridden? method = some above) :
    above ∈ index.methods ∧ rank above.declaring < rank method.declaring := by
  obtain ⟨type, known, declares⟩ := unambiguous.consistent.exists_declares methodKnown
  obtain ⟨ancestor, met, aboveDeclared, -⟩ :=
    unambiguous.exists_of_overridden? known declares found
  have lower := (unambiguous.consistent.pairwise_climb (unambiguous.defOf?_selfTy known) ranked
    _).1 ancestor met
  rw [← aboveDeclared.2, ← declares.2] at lower
  exact ⟨aboveDeclared.1, lower⟩

/-- A walk that may take as many steps as there are lower methods ends by itself. -/
theorem slotRootWithin_succ {rank : TypeId → Nat} (ranked : index.Ranked rank) {count : Nat}
    {method : MethodDef} (methodKnown : method ∈ index.methods)
    (enough : index.methodsBelow rank method ≤ count) :
    index.slotRootWithin (count + 1) method = index.slotRootWithin count method := by
  have fewer : ∀ {method above : MethodDef}, method ∈ index.methods →
      index.overridden? method = some above →
      index.methodsBelow rank above < index.methodsBelow rank method := by
    intro method above methodKnown found
    obtain ⟨aboveKnown, lower⟩ := unambiguous.overridden?_lt ranked methodKnown found
    exact countP_rank_lt (fun method : MethodDef => rank method.declaring) aboveKnown lower
  induction count generalizing method with
  | zero =>
      rw [slotRootWithin, slotRootWithin]
      split
      · cases found : index.overridden? method with
        | none => rfl
        | some above =>
            have positive := fewer methodKnown found
            omega
      · rfl
  | succ count ih =>
      rw [slotRootWithin, slotRootWithin]
      split
      · cases found : index.overridden? method with
        | none => rfl
        | some above =>
            have shorter := fewer methodKnown found
            have aboveKnown := (unambiguous.overridden?_lt ranked methodKnown found).1
            exact ih aboveKnown (by omega)
      · rfl

/-- Any walk that may take as many steps as there are methods leads to the root of the
slot. -/
theorem slotRootWithin_eq {count : Nat} {method : MethodDef}
    (methodKnown : method ∈ index.methods) (enough : index.methods.length ≤ count) :
    index.slotRootWithin count method = index.slotRoot method := by
  obtain ⟨rank, ranked⟩ := unambiguous.acyclic
  have bounded : index.methodsBelow rank method ≤ index.methods.length := List.countP_le_length
  obtain ⟨extra, rfl⟩ := Nat.exists_eq_add_of_le enough
  induction extra with
  | zero => rfl
  | succ extra ih =>
      rw [← Nat.add_assoc, unambiguous.slotRootWithin_succ ranked methodKnown (by omega)]
      exact ih (Nat.le_add_right _ _)

/-- The slot of an override is the slot of what it overrides. -/
theorem slotRoot_eq {method : MethodDef} (methodKnown : method ∈ index.methods) :
    index.slotRoot method =
      if method.virtuality = .override then
        match index.overridden? method with
        | some above => index.slotRoot above
        | none => method
      else method := by
  rw [← unambiguous.slotRootWithin_eq methodKnown (Nat.le_succ _), slotRootWithin]
  rfl

end Unambiguous

end TypeIndex

end MethodGroups
