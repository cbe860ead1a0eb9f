import MethodGroups.Proofs.Script.Reader

/-!
# Assignments inside of expressions

Expressions are written without parentheses.  Member reads, calls and lists do without, but an
assignment that stands where a member is read, where a call is made or where a value is
assigned is not seen as one operand by a reader: what follows it is taken for a part of its
value.  So a text does not tell on which side of it such an assignment stood, and trees that
are the same after regrouping have one text.  All other differences between two trees show.
-/

namespace MethodGroups.Script.Expr

/-! ## Trees of variables, member reads, calls, lists and assignments -/

/-- The expressions that are made of variables, member reads, calls, lists and assignments,
under plain names. -/
inductive Elementary : Expr → Prop where
  | identifier {name : String} : IsPlain name → Elementary (.identifier name)
  | member {target : Expr} {name : String} :
      Elementary target → IsPlain name → Elementary (.member target name)
  | invoke {callee : Expr} {args : List Expr} :
      Elementary callee → (∀ arg ∈ args, Elementary arg) → Elementary (.invoke callee args)
  | array {items : List Expr} : (∀ item ∈ items, Elementary item) → Elementary (.array items)
  | assign {target value : Expr} :
      Elementary target → Elementary value → Elementary (.assign target value)

theorem Elementary.surface {expr : Expr} (elementary : expr.Elementary) : expr.Surface := by
  induction elementary with
  | identifier plain => exact .identifier plain
  | member _ plain target => exact .member target plain
  | invoke _ _ callee args => exact .invoke callee args
  | array _ items => exact .array items
  | assign _ _ target value => exact .assign target value

/-! ## What a text tells about a tree -/

/-- The text of a tree is read as the tree with its assignments regrouped.  So two trees have the
same text exactly if they are the same after regrouping, which leaves a tree as it is exactly if
no assignment stands where a member is read, a call is made or a value is assigned.  Two trees
without such assignments are told apart. -/
theorem text_eq_text_iff {left right : Expr} (isLeft : left.Elementary)
    (isRight : right.Elementary) (settings : Settings) :
    ofText? (left.text settings) = some left.regrouped ∧
      (left.text settings = right.text settings ↔ left.regrouped = right.regrouped) ∧
      (left.regrouped = left ↔ left.Grouped) ∧
      (left.Grouped → right.Grouped → left.text settings = right.text settings → left = right) := by
  have readLeft := isLeft.surface.ofText?_text settings
  have readRight := isRight.surface.ofText?_text settings
  refine ⟨readLeft, ⟨?sameReading, ?sameText⟩, ⟨?isGrouped, Grouped.regrouped_eq⟩, ?toldApart⟩
  case sameReading =>
    intro same
    rw [same, readRight] at readLeft
    exact (Option.some.inj readLeft).symm
  case sameText =>
    intro same
    rw [← isLeft.surface.text_regrouped, same, isRight.surface.text_regrouped]
  case isGrouped =>
    intro same
    rw [← same]
    exact isLeft.surface.grouped_regrouped
  case toldApart =>
    intro leftGrouped rightGrouped same
    exact leftGrouped.eq_of_text_eq rightGrouped isLeft.surface isRight.surface same

/-- `((x = y)(z)).m = w`. -/
def assignedCall : Expr :=
  .assign (.member (.invoke (.assign (.identifier "x") (.identifier "y")) [.identifier "z"]) "m")
    (.identifier "w")

/-- `x = (y(z).m = w)`. -/
def calledValue : Expr :=
  .assign (.identifier "x")
    (.assign (.member (.invoke (.identifier "y") [.identifier "z"]) "m") (.identifier "w"))

/-- An assignment that is called is read as an assignment of what is called. -/
theorem ofText?_assignedCall :
    assignedCall.Elementary ∧ calledValue.Elementary ∧
      ofText? (assignedCall.text .standard) = some calledValue ∧
      assignedCall.text .standard = calledValue.text .standard ∧
      ¬ assignedCall.Grouped := by
  have variableX : (identifier "x").Elementary := .identifier (by decide)
  have variableY : (identifier "y").Elementary := .identifier (by decide)
  have variableW : (identifier "w").Elementary := .identifier (by decide)
  have args : ∀ arg ∈ [identifier "z"], arg.Elementary := by
    rw [List.forall_mem_singleton]
    exact .identifier (by decide)
  have isAssigned : assignedCall.Elementary :=
    .assign (.member (.invoke (.assign variableX variableY) args) (by decide)) variableW
  have isCalled : calledValue.Elementary :=
    .assign variableX (.assign (.member (.invoke variableY args) (by decide)) variableW)
  obtain ⟨read, sameText, grouped, -⟩ := text_eq_text_iff isAssigned isCalled .standard
  refine ⟨isAssigned, isCalled, read, sameText.mpr rfl, ?_⟩
  intro isGrouped
  have same : calledValue = assignedCall := grouped.mpr isGrouped
  simp [calledValue, assignedCall] at same

/-- `(x = y).m`. -/
def memberOfAssign : Expr := .member (.assign (.identifier "x") (.identifier "y")) "m"

/-- `x = (y.m)`. -/
def assignOfMember : Expr := .assign (.identifier "x") (.member (.identifier "y") "m")

/-- The member of an assignment and the assignment of the member have one text. -/
theorem text_memberOfAssign :
    memberOfAssign.Elementary ∧ assignOfMember.Elementary ∧
      memberOfAssign.text .standard = assignOfMember.text .standard ∧
      memberOfAssign ≠ assignOfMember := by
  have variableX : (identifier "x").Elementary := .identifier (by decide)
  have variableY : (identifier "y").Elementary := .identifier (by decide)
  refine ⟨.member (.assign variableX variableY) (by decide),
    .assign variableX (.member variableY (by decide)), by decide, ?_⟩
  simp [memberOfAssign, assignOfMember]

end MethodGroups.Script.Expr
