import MethodGroups.Proofs.Hierarchy.Slots

/-!
# Views compose

A far ancestor can be viewed from a type directly, or from an intermediate type whose
own view then supplies the arguments.  Both views are the same type, with one exception
in how it is written: the view of a type without parameters is the base as it was
written, and this may be an application to no arguments.
-/

namespace MethodGroups

namespace TypeIndex

variable {index : TypeIndex} {viewer middle : TypeDef} {target : TypeId} {through view : Ty}

/-- The direct view of a far ancestor is the view from an intermediate type, seen through
the view of the intermediate type.  The intermediate type itself, if it has no parameters,
is viewed as it is written. -/
theorem ancestorUse?_trans (wellFormed : index.WellFormed)
    (viewerKnown : viewer ∈ index.types) (middleKnown : middle ∈ index.types)
    (viewsMiddle : index.ancestorUse? viewer middle.id = some through)
    (viewsTarget : index.ancestorUse? middle target = some view) :
    ∃ direct, index.ancestorUse? viewer target = some direct ∧
      (direct = view.subst (middle.argSubst through.args) ∨
        target = middle.id ∧ direct = .app (.con middle.constructor) [] ∧
          view.subst (middle.argSubst through.args) = .con middle.constructor) := by
  obtain ⟨seen, seenMet, seenIds, rfl⟩ :=
    (wellFormed.ancestorUse?_eq_some_iff viewerKnown).mp viewsMiddle
  obtain ⟨seenKnown, seenUse⟩ := wellFormed.mem_lineage viewerKnown seenMet
  obtain rfl : seen.type = middle :=
    wellFormed.consistent.eq_of_id seenKnown middleKnown seenIds
  obtain ⟨far, farMet, rfl, rfl⟩ :=
    (wellFormed.ancestorUse?_eq_some_iff middleKnown).mp viewsTarget
  rcases List.mem_cons.mp farMet with rfl | above
  · refine ⟨seen.use, viewsMiddle, ?_⟩
    have composed := seen.type.subst_selfTy seenUse.arity
    rcases Ty.eq_named_or_of_head? seenUse.head with written | ⟨noArgs, written⟩
    · exact .inl (written.trans composed.symm)
    · refine .inr ⟨rfl, written, ?_⟩
      rw [composed, noArgs]
      rfl
  · refine ⟨far.use.subst seen.subst, ?_, .inl rfl⟩
    rw [wellFormed.ancestorUse?_eq_some_iff viewerKnown]
    exact ⟨far.through seen.subst,
      List.mem_cons_of_mem _ (wellFormed.through_mem_ancestors viewerKnown seenMet above),
      rfl, rfl⟩

end TypeIndex

/-- From `Shelf`, whose base is `Crate<System.Object>`, the `Box<U>` of a crate is a
`Box<System.Object>`. -/
theorem Containers.ancestorUse?_shelf_box :
    index.ancestorUse? shelf crate.id = some shelfBase ∧
      index.ancestorUse? crate ⟨1⟩ = some crateBase ∧
      index.ancestorUse? shelf ⟨1⟩ = some (.named ⟨"", "Box"⟩ [.object]) := by
  have viewsCrate : index.ancestorUse? shelf crate.id = some shelfBase := by decide +kernel
  have viewsBox : index.ancestorUse? crate ⟨1⟩ = some crateBase := by decide +kernel
  refine ⟨viewsCrate, viewsBox, ?_⟩
  obtain ⟨direct, views, composed | ⟨isCrate, -⟩⟩ := TypeIndex.ancestorUse?_trans wellFormed
    (by decide +kernel : shelf ∈ index.types) (by decide +kernel : crate ∈ index.types)
    viewsCrate viewsBox
  · have seen : crateBase.subst (crate.argSubst shelfBase.args) =
        .named ⟨"", "Box"⟩ [.object] := by decide +kernel
    rw [views, composed, seen]
  · exact absurd isCrate (by decide)

/-! ## A base written with an empty argument list -/

namespace Jars

def lid : TypeDef := ⟨⟨0⟩, ⟨"", "Lid"⟩, [], none, .ordinary, []⟩

/-- `Lid<>`, a way to write `Lid`. -/
def emptyApplication : Ty := .app (.con lid.constructor) []

def jar : TypeDef := ⟨⟨1⟩, ⟨"", "Jar"⟩, [], some emptyApplication, .ordinary, []⟩

/-- The classes `Lid` and `Jar : Lid<>`. -/
def index : TypeIndex :=
  ((TypeIndex.empty.addClass lid.constructor []).addClass jar.constructor []).modifyType jar.id
    (TypeIndex.rebase emptyApplication)

theorem wellFormed : index.WellFormed where
  built := by
    have classesBuilt : ((TypeIndex.empty.addClass lid.constructor []).addClass
        jar.constructor []).Built :=
      .step (.step .empty (.addClass ..)) (.addClass ..)
    exact classesBuilt.rebase jar.id emptyApplication (by decide +kernel)
  distinctKeys := by
    rw [TypeIndex.DistinctKeys]
    decide +kernel
  plainName := by decide +kernel
  plainBase := by decide +kernel
  ownBase := by decide +kernel

/-- A jar views its lid as it is written, and not as the lid views itself. -/
theorem ancestorUse?_emptyApplication :
    index.WellFormed ∧ jar ∈ index.types ∧ lid ∈ index.types ∧
      index.ancestorUse? jar lid.id = some emptyApplication ∧
      index.ancestorUse? lid lid.id = some lid.selfTy ∧
      ¬ emptyApplication.Same (lid.selfTy.subst (lid.argSubst emptyApplication.args)) := by
  refine ⟨wellFormed, ?_, ?_, ?_, ?_, ?_⟩
  all_goals decide +kernel

end Jars

end MethodGroups
