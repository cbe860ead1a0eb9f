import MethodGroups.Proofs.Hierarchy.SlotRoots
import MethodGroups.Proofs.Index.Growth
import Mathlib.Data.List.Find
import Mathlib.Data.List.Forall2

/-!
# Hierarchies under unrelated growth

Growth that does not concern a method changes no walk that began in a known type.  With the
same number of steps, the walks through the ancestors meet corresponding ancestors, and the
walks towards the root of a slot meet the same methods.  More steps are no use to a walk that
has ended, so the larger number of definitions changes nothing either.
-/

namespace MethodGroups

/-- What a walk tells of an ancestor: its id and the use through which it is seen. -/
def Ancestor.view (ancestor : Ancestor) : TypeId × Ty := (ancestor.type.id, ancestor.use)

namespace TypeIndex

/-- The later ancestor is seen through the same use. -/
structure KeepsAncestor (name : String) (before after : TypeIndex) (earlier later : Ancestor) :
    Prop where
  type : Keeps name before after earlier.type later.type
  use : later.use = earlier.use

theorem KeepsAncestor.subst {name : String} {before after : TypeIndex} {earlier later : Ancestor}
    (keeps : KeepsAncestor name before after earlier later) : later.subst = earlier.subst := by
  rw [Ancestor.subst, keeps.type.argSubst, Ancestor.args, keeps.use]
  rfl

/-- Two searches agree if they agree on corresponding elements. -/
private theorem findSome?_eq_of_forall₂ {α β γ : Type} {related : α → β → Prop}
    {left : α → Option γ} {right : β → Option γ} {lefts : List α} {rights : List β}
    (corresponding : List.Forall₂ related lefts rights)
    (agree : ∀ a ∈ lefts, ∀ b, related a b → left a = right b) :
    lefts.findSome? left = rights.findSome? right := by
  induction corresponding with
  | nil => rfl
  | cons first _ ih =>
      rw [List.findSome?_cons, List.findSome?_cons, agree _ List.mem_cons_self _ first,
        ih fun a met => agree a (List.mem_cons_of_mem _ met)]

namespace Conserves

variable {name : String} {before after : TypeIndex}
variable (conserves : Conserves name before after)

include conserves

theorem use? {ty : Ty} {earlier : TypeDef} {args : List Ty}
    (found : before.use? ty = some (earlier, args)) :
    ∃ later, after.use? ty = some (later, args) ∧ Keeps name before after earlier later := by
  simp only [TypeIndex.use?, Option.bind_eq_bind, Option.bind_eq_some_iff, Option.pure_def,
    Option.some.injEq] at found
  obtain ⟨⟨constructor, useArgs⟩, named, _, lookup, same⟩ := found
  cases same
  obtain ⟨later, laterLookup, keeps⟩ := conserves.findKey? _ _ lookup
  refine ⟨later, ?_, keeps⟩
  simp [TypeIndex.use?, named, find?, laterLookup]

theorem defOf? {ty : Ty} {earlier : TypeDef} (names : before.defOf? ty = some earlier) :
    ∃ later, after.defOf? ty = some later ∧ Keeps name before after earlier later := by
  obtain ⟨later, found, keeps⟩ := conserves.use? (use?_of_defOf? names)
  exact ⟨later, by rw [TypeIndex.defOf?, found]; rfl, keeps⟩

/-! ## Walks through the ancestors -/

/-- A step upwards from a use leads to the same base, or to none in both indexes. -/
theorem baseOfUse? (consistent : before.Consistent) {type : TypeDef} {use : Ty}
    (names : before.defOf? use = some type) :
    Option.Rel (KeepsAncestor name before after) (before.baseOfUse? use)
      (after.baseOfUse? use) := by
  have isUse := use?_of_defOf? names
  obtain ⟨later, laterUse, keeps⟩ := conserves.use? isUse
  have sameBase : later.base = type.base := by rw [keeps.definition]
  simp only [TypeIndex.baseOfUse?, isUse, laterUse, Option.bind_eq_bind, Option.bind_some, sameBase,
    keeps.argSubst]
  cases isBase : type.base with
  | none => exact .none
  | some base =>
      have baseKnown := consistent.baseKnown type (mem_of_defOf? names) base isBase
      obtain ⟨baseType, baseNames⟩ := Option.isSome_iff_exists.mp baseKnown
      rw [← defOf?_subst baseKnown (type.argSubst use.args)] at baseNames
      obtain ⟨laterBase, laterNames, keepsBase⟩ := conserves.defOf? baseNames
      simp only [Option.bind_some, baseNames, laterNames]
      exact .some ⟨keepsBase, rfl⟩

theorem climb (consistent : before.Consistent) (count : Nat) {type : TypeDef} {use : Ty}
    (names : before.defOf? use = some type) :
    List.Forall₂ (KeepsAncestor name before after) (before.climb count use)
      (after.climb count use) := by
  induction count generalizing type use with
  | zero => exact .nil
  | succ count ih =>
      have steps := conserves.baseOfUse? consistent names
      rw [TypeIndex.climb, TypeIndex.climb]
      cases step : before.baseOfUse? use with
      | none =>
          rw [step] at steps
          generalize after.baseOfUse? use = laterStep at steps
          cases steps
          exact .nil
      | some first =>
          rw [step] at steps
          generalize after.baseOfUse? use = laterStep at steps
          cases steps with
          | some keeps =>
              refine .cons keeps ?_
              rw [keeps.use]
              exact ih (consistent.defOf?_of_baseOfUse? names step)

variable (unambiguous : before.Unambiguous)

include unambiguous

/-- A type has the ancestors that it had. -/
theorem ancestors {earlier later : TypeDef} (known : earlier ∈ before.types)
    (keeps : Keeps name before after earlier later) :
    List.Forall₂ (KeepsAncestor name before after) (before.ancestors earlier)
      (after.ancestors later) := by
  obtain ⟨rank, ranked⟩ := unambiguous.acyclic
  have names := unambiguous.defOf?_selfTy known
  have enough : before.types.length ≤ 2 * after.types.length :=
    conserves.typeCount.trans (Nat.le_mul_of_pos_left _ Nat.two_pos)
  -- The later walk may take more steps, and the earlier one has ended by then.
  rw [ancestors_eq_above, ← unambiguous.consistent.climb_eq_above names ranked enough,
    TypeIndex.ancestors, keeps.selfTy]
  exact conserves.climb unambiguous.consistent _ names

theorem map_view_ancestors {earlier later : TypeDef} (known : earlier ∈ before.types)
    (keeps : Keeps name before after earlier later) :
    (after.ancestors later).map Ancestor.view = (before.ancestors earlier).map Ancestor.view := by
  symm
  rw [← List.forall₂_eq_eq_eq, List.forall₂_map_left_iff, List.forall₂_map_right_iff]
  apply (conserves.ancestors unambiguous known keeps).imp
  intro ancestor laterAncestor keepsAncestor
  rw [Ancestor.view, Ancestor.view, keepsAncestor.type.id, keepsAncestor.use]

/-- A type sees every type as it saw it. -/
theorem ancestorUse?_eq {earlier later : TypeDef} (known : earlier ∈ before.types)
    (keeps : Keeps name before after earlier later) (seen : TypeId) :
    after.ancestorUse? later seen = before.ancestorUse? earlier seen := by
  have search : ∀ (index : TypeIndex) (type : TypeDef),
      ((index.ancestors type).find? fun ancestor => ancestor.type.id = seen).map Ancestor.use =
        (((index.ancestors type).map Ancestor.view).find? fun view => view.1 = seen).map
          Prod.snd := by
    intro index type
    rw [List.find?_map, Option.map_map]
    rfl
  rw [ancestorUse?, ancestorUse?, keeps.id, keeps.selfTy, search, search,
    conserves.map_view_ancestors unambiguous known keeps]

/-! ## Walks to the root of a slot -/

variable {method : MethodDef}

theorem overridden?_eq (methodKnown : method ∈ before.methods) (named : method.name = name) :
    after.overridden? method = before.overridden? method := by
  obtain ⟨declaring, isDeclaring, -⟩ := unambiguous.consistent.listed method methodKnown
  obtain ⟨later, isLater, keeps⟩ := conserves.type? _ _ isDeclaring
  simp only [overridden?, isDeclaring, isLater, Option.bind_eq_bind, Option.bind_some]
  symm
  apply findSome?_eq_of_forall₂
    (conserves.ancestors unambiguous (List.mem_of_getElem? isDeclaring) keeps)
  intro ancestor _ laterAncestor keepsAncestor
  rw [overriddenIn?, overriddenIn?, named, keepsAncestor.type.methodsNamed, keepsAncestor.subst]

theorem slotRootWithin_eq (count : Nat) (methodKnown : method ∈ before.methods)
    (named : method.name = name) :
    after.slotRootWithin count method = before.slotRootWithin count method := by
  induction count generalizing method with
  | zero => rfl
  | succ count ih =>
      rw [slotRootWithin, slotRootWithin,
        conserves.overridden?_eq unambiguous methodKnown named]
      split
      · cases found : before.overridden? method with
        | none => rfl
        | some above =>
            obtain ⟨aboveKnown, sameName⟩ := unambiguous.overridden?_known methodKnown found
            exact ih aboveKnown (sameName.trans named)
      · rfl

/-- A method has the root that it had. -/
theorem slotRoot_eq (methodKnown : method ∈ before.methods) (named : method.name = name) :
    after.slotRoot method = before.slotRoot method := by
  rw [slotRoot, conserves.slotRootWithin_eq unambiguous _ methodKnown named]
  exact unambiguous.slotRootWithin_eq methodKnown conserves.methodCount

theorem slotMember?_eq (root : MethodId) {earlier later : Ancestor}
    (known : earlier.type ∈ before.types)
    (keeps : KeepsAncestor name before after earlier later) :
    after.slotMember? name root later = before.slotMember? name root earlier := by
  rw [slotMember?, slotMember?, keeps.type.methodsNamed]
  apply List.find?_congr
  intro candidate met
  obtain ⟨declares, named⟩ := (unambiguous.consistent.mem_methodsNamed known).mp met
  rw [conserves.slotRoot_eq unambiguous declares.1 named]

/-- A call through `base` runs what it ran. -/
theorem baseTarget?_eq {earlier later : TypeDef} (known : earlier ∈ before.types)
    (keeps : Keeps name before after earlier later) (methodKnown : method ∈ before.methods)
    (named : method.name = name) :
    after.baseTarget? later method = before.baseTarget? earlier method := by
  rw [baseTarget?, baseTarget?, conserves.slotRoot_eq unambiguous methodKnown named, named,
    conserves.ancestorUse?_eq unambiguous known keeps]
  congr 1
  symm
  apply findSome?_eq_of_forall₂ (conserves.ancestors unambiguous known keeps)
  intro ancestor met laterAncestor keepsAncestor
  have ancestorKnown := mem_of_defOf? (unambiguous.defOf?_of_mem_ancestors known met)
  rw [conserves.slotMember?_eq unambiguous _ ancestorKnown keepsAncestor, keepsAncestor.use]

end Conserves

end TypeIndex

end MethodGroups
