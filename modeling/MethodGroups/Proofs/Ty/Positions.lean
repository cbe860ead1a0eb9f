import MethodGroups.Proofs.Ty.Assignment

/-!
# Positions in a type

A position is the way from a type to one of its parts.  An assignment to inference variables
puts types below the variables and changes nothing above them, so a position that a type has
stays one, and what stands there is assigned like the whole.
-/

namespace MethodGroups.Ty

/-- One step from a type to a direct part of it. -/
inductive Turn where
  | head
  | arg (index : Nat)
  | element
  deriving DecidableEq, Repr

/-- The way from a type to one of its parts, from the outside to the inside. -/
abbrev Position := List Turn

/-- The direct part of a type that a step leads to. -/
def part? : Ty → Turn → Option Ty
  | .app head _, .head => some head
  | .app _ args, .arg index => args[index]?
  | .array element, .element => some element
  | _, _ => none

/-- The part of a type at a position. -/
def at? : Ty → Position → Option Ty
  | ty, [] => some ty
  | ty, turn :: rest => (ty.part? turn).bind (·.at? rest)

theorem at?_nil (ty : Ty) : ty.at? [] = some ty := by rw [at?]

/-- One step on from a position. -/
theorem at?_concat (ty : Ty) (position : Position) (turn : Turn) :
    ty.at? (position ++ [turn]) = (ty.at? position).bind (·.part? turn) := by
  induction position generalizing ty with
  | nil => simp [at?]
  | cons first rest ih =>
      simp only [List.cons_append, at?, Option.bind_assoc]
      exact congrArg _ (funext fun part => ih part)

theorem part?_assign {ty part : Ty} {turn : Turn} (found : ty.part? turn = some part)
    (assignment : TyVar → Ty) :
    (ty.assign assignment).part? turn = some (part.assign assignment) := by
  cases ty with
  | var | con | param => cases found
  | app head args =>
      cases turn with
      | head =>
          cases found
          rfl
      | arg index =>
          simp only [part?] at found
          simp only [assign, assignList_eq_map, part?, List.getElem?_map, found, Option.map_some]
      | element => cases found
  | array element =>
      cases turn with
      | head | arg => cases found
      | element =>
          cases found
          rfl

/-- What stands at a position is assigned like the whole. -/
theorem at?_assign {ty part : Ty} {position : Position} (found : ty.at? position = some part)
    (assignment : TyVar → Ty) :
    (ty.assign assignment).at? position = some (part.assign assignment) := by
  induction position generalizing ty with
  | nil =>
      cases found
      rw [at?_nil]
  | cons turn rest ih =>
      rw [at?, Option.bind_eq_some_iff] at found ⊢
      obtain ⟨direct, isDirect, inDirect⟩ := found
      exact ⟨direct.assign assignment, part?_assign isDirect assignment, ih inDirect⟩

/-! ## Types that differ from the outside -/

/-- The outermost constructors of types. -/
inductive Former where
  | var
  | con
  | app
  | param
  | array
  deriving DecidableEq, Repr

/-- The outermost constructor of a type. -/
def former : Ty → Former
  | .var _ => .var
  | .con _ => .con
  | .app _ _ => .app
  | .param _ => .param
  | .array _ => .array

/-- Types that differ from the outside: neither is a variable, and they start differently, name
different constructors, or are parameters of different owners or at different places. -/
inductive Clash : Ty → Ty → Prop where
  | formers {left right : Ty} (leftProper : left.former ≠ .var) (rightProper : right.former ≠ .var)
      (differ : left.former ≠ right.former) : Clash left right
  | con {left right : TypeName} (differ : left ≠ right) : Clash (.con left) (.con right)
  | param {left right : TyParam} (differ : left.key ≠ right.key) :
      Clash (.param left) (.param right)

end MethodGroups.Ty
