import MethodGroups.Index.Basic
import MethodGroups.Proofs.Ty.Names

/-!
# Reading names off lookup keys

A lookup key joins the scope, the name and the number of type parameters of a type
by a dot and a backtick.  If names contain neither of the two characters, the key
can be taken apart again: the last dot ends the scope, and the last backtick after
it ends the name.
-/

namespace MethodGroups

/-- A name that contains none of the characters that lookup keys are joined by. -/
def TypeName.IsPlain (constructor : TypeName) : Prop :=
  '.' ∉ constructor.name.toList ∧ '`' ∉ constructor.name.toList

instance (constructor : TypeName) : Decidable constructor.IsPlain :=
  inferInstanceAs (Decidable (_ ∧ _))

/-- A key without a backtick in its name part determines the name and the arity. -/
private theorem lookupKey_inj_of_not_mem {left right : String} {leftArity rightArity : Nat}
    (plainLeft : '`' ∉ left.toList) (plainRight : '`' ∉ right.toList)
    (equal : lookupKey left leftArity = lookupKey right rightArity) :
    left = right ∧ leftArity = rightArity := by
  have noDigit : ('`' : Char).isDigit = false := by decide
  have characters := congrArg String.toList equal
  simp only [lookupKey] at characters
  by_cases leftZero : leftArity = 0 <;> by_cases rightZero : rightArity = 0
  · simp only [leftZero, rightZero, if_true] at characters ⊢
    exact ⟨String.toList_inj.mp characters, trivial⟩
  · simp only [leftZero, rightZero, if_true, if_false, String.toList_append] at characters
    exact (plainLeft (by simp [characters])).elim
  · simp only [leftZero, rightZero, if_true, if_false, String.toList_append] at characters
    exact (plainRight (by simp [← characters])).elim
  · have backtick : ("`" : String).toList = ['`'] := rfl
    simp only [leftZero, rightZero, if_false, String.toList_append, List.append_assoc,
      backtick, List.singleton_append] at characters
    obtain ⟨names, digits⟩ := append_cons_inj characters
      (not_mem_toString noDigit leftArity) (not_mem_toString noDigit rightArity)
    exact ⟨String.toList_inj.mp names, eq_of_toList_toString_eq digits⟩

/-- The scope stands in front of the key of the name alone. -/
private theorem lookupKey_qualified (constructor : TypeName) (arity : Nat) :
    lookupKey constructor.qualified arity =
      TypeName.qualified ⟨constructor.scope, lookupKey constructor.name arity⟩ := by
  simp only [lookupKey, TypeName.qualified]
  by_cases root : constructor.scope.isEmpty <;> by_cases zero : arity = 0 <;>
    simp [root, zero, String.append_assoc]

/-- The key of a plain name alone contains no dot. -/
private theorem dot_not_mem_lookupKey {constructor : TypeName} (plain : constructor.IsPlain)
    (arity : Nat) : '.' ∉ (lookupKey constructor.name arity).toList := by
  have noDigit : ('.' : Char).isDigit = false := by decide
  rw [lookupKey]
  split
  · exact plain.1
  · simp only [String.toList_append, List.mem_append, not_or]
    exact ⟨⟨plain.1, by decide⟩, not_mem_toString noDigit arity⟩

/-- The key of a plain name and a number of type parameters determines both. -/
theorem lookupKey_inj {left right : TypeName} {leftArity rightArity : Nat}
    (plainLeft : left.IsPlain) (plainRight : right.IsPlain)
    (equal : lookupKey left.qualified leftArity = lookupKey right.qualified rightArity) :
    left = right ∧ leftArity = rightArity := by
  rw [lookupKey_qualified, lookupKey_qualified] at equal
  obtain ⟨scopes, keys⟩ := TypeName.mk.inj (TypeName.qualified_inj
    (dot_not_mem_lookupKey plainLeft leftArity) (dot_not_mem_lookupKey plainRight rightArity) equal)
  obtain ⟨names, arities⟩ := lookupKey_inj_of_not_mem plainLeft.2 plainRight.2 keys
  exact ⟨congrArg₂ TypeName.mk scopes names, arities⟩

end MethodGroups
