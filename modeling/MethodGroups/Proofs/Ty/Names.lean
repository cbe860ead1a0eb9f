import MethodGroups.Ty.Basic
import MethodGroups.Proofs.Splitting

/-!
# Scopes and names joined by a dot

A qualified name does not tell where the scope ends, unless the name is known to contain no dot.
Two type names with one qualified name are equal or differ by a part that counts as scope in the
one and as name in the other.
-/

namespace MethodGroups

namespace TypeName

theorem qualified_of_scope {type : TypeName} (hasScope : type.scope ≠ "") :
    type.qualified.toList = type.scope.toList ++ '.' :: type.name.toList := by
  rw [qualified, if_neg (by simpa using hasScope)]
  simp

theorem qualified_of_root {type : TypeName} (root : type.scope = "") :
    type.qualified = type.name := by
  rw [qualified, if_pos (by simpa using root)]

/-- The first part of one name belongs to the scope of the other one, and all else agrees. -/
def Regroups (outer inner : TypeName) : Prop :=
  inner.scope ≠ "" ∧ ∃ middle, inner.scope = qualified ⟨outer.scope, middle⟩ ∧
    outer.name = middle ++ "." ++ inner.name

theorem Regroups.qualified_eq {outer inner : TypeName} (regroups : outer.Regroups inner) :
    outer.qualified = inner.qualified := by
  obtain ⟨hasScope, middle, scopes, names⟩ := regroups
  apply String.toList_inj.mp
  rw [qualified_of_scope hasScope, scopes]
  by_cases root : outer.scope = ""
  · rw [qualified_of_root root, @qualified_of_root ⟨outer.scope, middle⟩ root, names]
    simp
  · rw [qualified_of_scope root, @qualified_of_scope ⟨outer.scope, middle⟩ root, names]
    simp

/-- If one scope goes on where the other one ends, the name between belongs to both. -/
private theorem eq_or_regroups {outer inner : TypeName} {between : List Char}
    (outerScope : outer.scope ≠ "") (innerScope : inner.scope ≠ "")
    (scopes : inner.scope.toList = outer.scope.toList ++ between)
    (names : '.' :: outer.name.toList = between ++ '.' :: inner.name.toList) :
    outer = inner ∨ outer.Regroups inner := by
  cases between with
  | nil =>
      refine .inl (congrArg₂ TypeName.mk (String.toList_inj.mp ?_) (String.toList_inj.mp ?_))
      · simpa using scopes.symm
      · simpa using names
  | cons first middle =>
      rw [List.cons_append, List.cons.injEq] at names
      obtain ⟨rfl, names⟩ := names
      refine .inr ⟨innerScope, String.ofList middle, ?_, ?_⟩
      · apply String.toList_inj.mp
        rw [@qualified_of_scope ⟨outer.scope, String.ofList middle⟩ outerScope, scopes]
        simp
      · apply String.toList_inj.mp
        rw [names]
        simp

/-- A name of the root scope that is also the qualified name of another type. -/
private theorem regroups_of_root {outer inner : TypeName} (root : outer.scope = "")
    (innerScope : inner.scope ≠ "") (same : outer.qualified = inner.qualified) :
    outer.Regroups inner := by
  refine ⟨innerScope, inner.scope, ?_, ?_⟩
  · rw [@qualified_of_root ⟨outer.scope, inner.scope⟩ root]
  · apply String.toList_inj.mp
    rw [← qualified_of_root root, same, qualified_of_scope innerScope]
    simp

theorem qualified_eq_iff {left right : TypeName} :
    left.qualified = right.qualified ↔
      left = right ∨ left.Regroups right ∨ right.Regroups left := by
  constructor
  · intro same
    by_cases leftRoot : left.scope = "" <;> by_cases rightRoot : right.scope = ""
    · rw [qualified_of_root leftRoot, qualified_of_root rightRoot] at same
      exact .inl (congrArg₂ TypeName.mk (leftRoot.trans rightRoot.symm) same)
    · exact .inr (.inl (regroups_of_root leftRoot rightRoot same))
    · exact .inr (.inr (regroups_of_root rightRoot leftRoot same.symm))
    · have characters := congrArg String.toList same
      rw [qualified_of_scope leftRoot, qualified_of_scope rightRoot] at characters
      rcases List.append_eq_append_iff.mp characters with
        ⟨between, scopes, names⟩ | ⟨between, scopes, names⟩
      · rcases eq_or_regroups leftRoot rightRoot scopes names with equal | regroups
        · exact .inl equal
        · exact .inr (.inl regroups)
      · rcases eq_or_regroups rightRoot leftRoot scopes names with equal | regroups
        · exact .inl equal.symm
        · exact .inr (.inr regroups)
  · rintro (rfl | regroups | regroups)
    · rfl
    · exact regroups.qualified_eq
    · exact regroups.qualified_eq.symm

theorem Regroups.dot_mem {outer inner : TypeName} (regroups : outer.Regroups inner) :
    '.' ∈ outer.name.toList := by
  obtain ⟨-, middle, -, names⟩ := regroups
  simp [names]

/-- A name ends at the last dot, so without dots in names the scopes can be told. -/
theorem qualified_inj {left right : TypeName} (leftPlain : '.' ∉ left.name.toList)
    (rightPlain : '.' ∉ right.name.toList) (same : left.qualified = right.qualified) :
    left = right := by
  rcases qualified_eq_iff.mp same with equal | regroups | regroups
  · exact equal
  · exact absurd regroups.dot_mem leftPlain
  · exact absurd regroups.dot_mem rightPlain

end TypeName

end MethodGroups
