import Mathlib.Data.List.TakeWhile
import Mathlib.Data.Nat.Digits.Defs

/-!
# Taking texts apart

A text that is put together from parts can be taken apart again where a separator stands that is
not in a part, or where the characters of a part are of another kind than the one that follows.
Digits are such a kind.
-/

namespace MethodGroups

/-- A list is split in only one way at the last occurrence of an element. -/
theorem append_cons_inj {α : Type} {separator : α} {left left' right right' : List α}
    (equal : left ++ separator :: right = left' ++ separator :: right')
    (last : separator ∉ right) (last' : separator ∉ right') :
    left = left' ∧ right = right' := by
  rcases List.append_eq_append_iff.mp equal with ⟨between, rfl, rest⟩ | ⟨between, rfl, rest⟩
  · cases between with
    | nil => simpa using rest
    | cons first others =>
        simp only [List.cons_append, List.cons.injEq] at rest
        exact (last (by simp [rest.2])).elim
  · cases between with
    | nil => simpa [eq_comm] using rest
    | cons first others =>
        simp only [List.cons_append, List.cons.injEq] at rest
        exact (last' (by simp [rest.2])).elim

/-- A list is split in only one way where the elements of a kind end. -/
theorem append_inj_of_kind {α : Type} {kind : α → Bool} {left left' right right' : List α}
    {next next' : α} (equal : left ++ next :: right = left' ++ next' :: right')
    (all : ∀ item ∈ left, kind item) (all' : ∀ item ∈ left', kind item) (stop : ¬kind next)
    (stop' : ¬kind next') : left = left' ∧ next :: right = next' :: right' := by
  have taken := congrArg (List.takeWhile kind) equal
  rw [List.takeWhile_append_of_pos all, List.takeWhile_append_of_pos all',
    List.takeWhile_cons_of_neg stop, List.takeWhile_cons_of_neg stop', List.append_nil,
    List.append_nil] at taken
  subst taken
  exact ⟨rfl, List.append_cancel_left equal⟩

/-! ## Digits -/

theorem toList_toString (number : Nat) : (toString number).toList = Nat.toDigits 10 number := by
  rw [Nat.toString_eq_repr, Nat.toList_repr]

theorem isDigit_of_mem_toString {number : Nat} {c : Char} (inside : c ∈ (toString number).toList) :
    c.isDigit :=
  Nat.isDigit_of_mem_toDigits (by decide) (by decide) (toList_toString number ▸ inside)

/-- The digits of a number contain no character that is not a digit. -/
theorem not_mem_toString {c : Char} (noDigit : c.isDigit = false) (number : Nat) :
    c ∉ (toString number).toList := by
  intro inside
  rw [isDigit_of_mem_toString inside] at noDigit
  cases noDigit

/-- The digits of a number determine it. -/
theorem eq_of_toList_toString_eq {number other : Nat}
    (same : (toString number).toList = (toString other).toList) : number = other := by
  rw [toList_toString, toList_toString] at same
  rw [← @Nat.ofDigitChars_ten_toDigits number, same, Nat.ofDigitChars_ten_toDigits]

end MethodGroups
