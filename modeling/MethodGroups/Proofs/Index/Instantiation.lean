import MethodGroups.Proofs.Index.WellFormed
import MethodGroups.Proofs.Ty.Within

/-!
# Substitution and instantiation

Types are seen through the uses of definitions by substitution, step by step along a hierarchy.
Two steps are one, whatever substitution has the images of both, and no step depends on the
spelling of type parameters.  The arguments of a use take the places of the parameters of its
definition: in the open form of the definition they make the use itself, and any other type in
the scope of the definition then mentions what they mention, and parameters of methods.
-/

namespace MethodGroups

namespace Subst

/-- One substitution has the images of two in a row: what the first one replaces is seen through
the second one, and the rest is replaced as by the second one. -/
structure Composes (first second composed : Subst) : Prop where
  replaced : ∀ p image, first.image? p = some image →
    composed.image? p = some (image.subst second)
  kept : ∀ p, first.image? p = none → composed.image? p = second.image? p

theorem composes_through (first second : Subst) :
    first.Composes second (first.through second ++ second) where
  replaced := by
    intro p image found
    rw [image?_append, image?_through, found]
    rfl
  kept := by
    intro p absent
    rw [image?_append, image?_through, absent]
    rfl

/-- Only the images matter, so two substitutions in a row are any one that has theirs. -/
theorem Composes.subst_subst {first second composed : Subst}
    (composes : first.Composes second composed) (ty : Ty) :
    (ty.subst first).subst second = ty.subst composed := by
  rw [Ty.subst_subst]
  apply Ty.subst_congr
  intro p _
  have listed := composes_through first second
  cases found : first.image? p with
  | none => rw [listed.kept p found, composes.kept p found]
  | some image => rw [listed.replaced p image found, composes.replaced p image found]

end Subst

namespace TypeDef

variable {type : TypeDef} {args : List Ty} {ty : Ty}

/-- A written type, seen through arguments: each mentioned parameter has an argument, or is
allowed itself. -/
theorem within_subst_argSubst {allowed : TyParam → Prop}
    (argsWithin : ∀ arg ∈ args, arg.Within allowed)
    (mentioned : ∀ p ∈ ty.params,
      args.length = type.typeParams.length ∧ type.Owns p ∨ allowed p) :
    (ty.subst (type.argSubst args)).Within allowed := by
  apply Ty.Within.subst
  intro p isMentioned
  cases found : (type.argSubst args).image? p with
  | some image => exact argsWithin image (mem_of_image?_argSubst found)
  | none =>
      rcases mentioned p isMentioned with ⟨arity, owns⟩ | isAllowed
      · have image := isSome_image?_argSubst arity owns
        rw [found] at image
        cases image
      · intro q isParam
        cases List.mem_singleton.mp isParam
        exact isAllowed

theorem mem_vars_subst_argSubst {v : TyVar}
    (occurs : v ∈ (ty.subst (type.argSubst args)).vars) :
    v ∈ ty.vars ∨ ∃ arg ∈ args, v ∈ arg.vars := by
  refine (Ty.mem_vars_subst.mp occurs).imp_right ?_
  rintro ⟨p, -, arg, found, inArg⟩
  exact ⟨arg, mem_of_image?_argSubst found, inArg⟩

end TypeDef

/-- Two substitutions in a row are one, same types are the same under same substitutions, and
with one argument for each type parameter the open form of a definition becomes the use with
these arguments.  A type in the scope of the definition then mentions what the arguments mention,
and the parameters of methods that it mentioned before. -/
theorem Ty.subst_lawful :
    (∀ first second : Subst, first.Composes second (first.through second ++ second)) ∧
    (∀ first second composed : Subst, first.Composes second composed →
      ∀ ty : Ty, (ty.subst first).subst second = ty.subst composed) ∧
    (∀ (left right : Ty) (first second : Subst), left.Same right → first.Same second →
      (left.subst first).Same (right.subst second)) ∧
    ∀ (type : TypeDef) (args : List Ty), args.length = type.typeParams.length →
      type.selfTy.subst (type.argSubst args) = type.instantiate args ∧
      ∀ ty : Ty, (ty.Within fun p => type.Owns p ∨ p.key.owner = .method) →
        ((ty.subst (type.argSubst args)).Within fun q =>
          (q ∈ ty.params ∧ q.key.owner = .method) ∨ ∃ arg ∈ args, q ∈ arg.params) ∧
        ∀ v ∈ (ty.subst (type.argSubst args)).vars, v ∈ ty.vars ∨ ∃ arg ∈ args, v ∈ arg.vars := by
  refine ⟨Subst.composes_through, ?_, ?_, ?_⟩
  · intro first second composed composes ty
    exact composes.subst_subst ty
  · intro left right first second same images
    exact same.subst_of_same images
  · intro type args arity
    refine ⟨type.subst_selfTy arity, ?_⟩
    intro ty inScope
    refine ⟨TypeDef.within_subst_argSubst ?_ ?_, fun v => TypeDef.mem_vars_subst_argSubst⟩
    · intro arg isArg q inArg
      exact .inr ⟨arg, isArg, inArg⟩
    · intro p mentioned
      rcases inScope p mentioned with owns | ofMethod
      · exact .inl ⟨arity, owns⟩
      · exact .inr (.inl ⟨mentioned, ofMethod⟩)

namespace Containers

/-- An array of what the second type parameter of a method stands for. -/
def labels : Ty := .array (.param ⟨⟨.method, 1⟩, "W"⟩)

/-- A crate of labels, also when it is first seen as a crate of arrays of its own items, and
whatever the spelling of the type parameters. -/
theorem subst_lawful_crate :
    crate.selfTy.subst (crate.argSubst [labels]) = crate.instantiate [labels] ∧
      (crateBase.subst (crate.argSubst [.array crated])).subst (crate.argSubst [labels]) =
        crateBase.subst (crate.argSubst [.array labels]) ∧
      (crateBase.subst (crate.argSubst [labels])).Same
        (crateBase.erased.subst (crate.argSubst [labels.erased])) ∧
      ∀ q ∈ (crateBase.subst (crate.argSubst [labels])).params, q ∈ labels.params := by
  have seenThrough : (crate.argSubst [.array crated]).through (crate.argSubst [labels]) =
      crate.argSubst [.array labels] := by decide
  have respelled : (crate.argSubst [labels]).Same (crate.argSubst ([labels].map Ty.erased)) := by
    intro p
    rw [TypeDef.argSubst_map, Ty.subst, Ty.subst, Subst.image?_map]
    cases (crate.argSubst [labels]).image? p with
    | none => rfl
    | some image => exact (Ty.Same.of_erased image).symm
  have noMethods : ∀ q ∈ crateBase.params, q.key.owner ≠ .method := by decide
  obtain ⟨composes, composed, same, instances⟩ := Ty.subst_lawful
  have twice := composed _ _ _ (composes (crate.argSubst [.array crated]) (crate.argSubst [labels]))
  obtain ⟨ofOpen, inScope⟩ := instances crate [labels] rfl
  obtain ⟨within, -⟩ := inScope crateBase (by decide)
  refine ⟨ofOpen, ?_, same _ _ _ _ (Ty.Same.of_erased crateBase).symm respelled, ?_⟩
  · rw [twice, seenThrough]
    decide
  · intro q mentioned
    rcases within q mentioned with ⟨inBase, ofMethod⟩ | ⟨arg, isArg, inArg⟩
    · exact (noMethods q inBase ofMethod).elim
    · cases List.mem_singleton.mp isArg
      exact inArg

end Containers

end MethodGroups
