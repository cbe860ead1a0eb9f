import MethodGroups.Script.Text
import Mathlib.Tactic.FinCases

/-!
# Expressions of the script language itself

Apart from the helpers, an expression is written from names, literals, types in braces, lists,
member reads, calls and assignments.  No parentheses are written, and an assignment that stands
where a member is read, where a call is made or where a value is assigned would need them: in
the text, what follows it is a part of its value.  Regrouping makes such an expression into the
one that the text shows.  It keeps the text, and leaves alone what needs no parentheses.
-/

namespace MethodGroups.Script

/-! ## Names -/

/-- The characters that are not part of a name. -/
def isMark (c : Char) : Bool :=
  [' ', '\'', '(', ')', ',', '.', '=', '[', ']', '{', '}'].contains c

/-- A plain identifier: not empty and without marks, for instance of letters, digits, `_` and
`$`. -/
def IsPlain (name : String) : Prop := name ≠ "" ∧ ∀ c ∈ name.toList, isMark c = false

-- The characters of the name are tried, and not all characters there are.
instance : DecidablePred IsPlain := fun name =>
  @instDecidableAnd _ _ _ (List.decidableBAll (isMark · = false) name.toList)

theorem isMark_eq_false {c : Char} (partOfName : c.isAlphanum = true ∨ c = '_' ∨ c = '$') :
    isMark c = false := by
  by_contra mark
  rw [Bool.not_eq_false, isMark, List.contains_iff_mem] at mark
  revert partOfName
  fin_cases mark <;> decide

/-- Letters, digits, `_` and `$` make plain names. -/
theorem isPlain_of_alphanum {name : String} (nonempty : name ≠ "")
    (chars : ∀ c ∈ name.toList, c.isAlphanum = true ∨ c = '_' ∨ c = '$') : IsPlain name :=
  ⟨nonempty, fun c isChar => isMark_eq_false (chars c isChar)⟩

/-! ## Expressions without helpers -/

/-- A type in braces, by the name that stands there. -/
def braced (name : String) : Expr := .typeRef (.named ⟨"", name⟩)

namespace Expr

/-- The expressions that are written without settings: names, literals, types in braces, lists,
member reads, calls and assignments. -/
inductive Surface : Expr → Prop where
  | identifier {name : String} : IsPlain name → Surface (.identifier name)
  | braced {name : String} : '}' ∉ name.toList → Surface (braced name)
  | string (value : String) : Surface (.string value)
  | array {items : List Expr} : (∀ item ∈ items, Surface item) → Surface (.array items)
  | member {target : Expr} {name : String} :
      Surface target → IsPlain name → Surface (.member target name)
  | invoke {callee : Expr} {args : List Expr} :
      Surface callee → (∀ arg ∈ args, Surface arg) → Surface (.invoke callee args)
  | assign {target value : Expr} :
      Surface target → Surface value → Surface (.assign target value)

/-! ## Regrouping -/

/-- Assignments of a value to targets, the last target getting it first. -/
def assigned (targets : List Expr) (value : Expr) : Expr := targets.foldr .assign value

mutual

/-- The targets of assignments that are left of the last operand of an expression, and this
operand.  Member reads and calls belong to the last operand alone. -/
def chain : Expr → List Expr × Expr
  | .member target name => (target.chain.1, .member target.chain.2 name)
  | .invoke callee args => (callee.chain.1, .invoke callee.chain.2 (regroupedList args))
  | .assign target value => (target.chain.1 ++ target.chain.2 :: value.chain.1, value.chain.2)
  | .array items => ([], .array (regroupedList items))
  | expr => ([], expr)

/-- Expressions, each with its assignments regrouped. -/
def regroupedList : List Expr → List Expr
  | [] => []
  | expr :: rest => assigned expr.chain.1 expr.chain.2 :: regroupedList rest

end

/-- The expression with its assignments regrouped to the right: the target of a member read, the
callee of a call and the target of an assignment are no assignments any more. -/
def regrouped (expr : Expr) : Expr := assigned expr.chain.1 expr.chain.2

theorem regroupedList_eq_map (exprs : List Expr) : regroupedList exprs = exprs.map regrouped := by
  induction exprs with
  | nil => rw [regroupedList, List.map_nil]
  | cons expr rest ih => rw [regroupedList, ih, List.map_cons, regrouped]

/-- Whether the expression is an assignment. -/
def isAssign : Expr → Bool
  | .assign _ _ => true
  | _ => false

/-- No assignment stands as the target of a member read, as the callee of a call or as the target
of an assignment. -/
inductive Grouped : Expr → Prop where
  | identifier (name : String) : Grouped (.identifier name)
  | braced (name : String) : Grouped (braced name)
  | string (value : String) : Grouped (.string value)
  | member {target : Expr} (name : String) :
      Grouped target → target.isAssign = false → Grouped (.member target name)
  | invoke {callee : Expr} {args : List Expr} :
      Grouped callee → callee.isAssign = false → (∀ arg ∈ args, Grouped arg) →
        Grouped (.invoke callee args)
  | array {items : List Expr} : (∀ item ∈ items, Grouped item) → Grouped (.array items)
  | assign {target value : Expr} :
      Grouped target → target.isAssign = false → Grouped value → Grouped (.assign target value)

/-! ## Regrouping keeps the text -/

variable {settings : Settings}

/-- What is written behind the last operand is written behind the whole chain. -/
theorem text_assigned_append {value longer : Expr} {suffix : String}
    (written : longer.text settings = value.text settings ++ suffix) (targets : List Expr) :
    (assigned targets longer).text settings = (assigned targets value).text settings ++ suffix := by
  induction targets with
  | nil => exact written
  | cons target rest ih =>
      change target.text settings ++ " = " ++ (assigned rest longer).text settings =
        target.text settings ++ " = " ++ (assigned rest value).text settings ++ suffix
      rw [ih, ← String.append_assoc]

theorem assigned_append (outer inner : List Expr) (value : Expr) :
    assigned (outer ++ inner) value = assigned outer (assigned inner value) := by
  rw [assigned, List.foldr_append, ← assigned, ← assigned]

theorem map_text_regrouped {exprs : List Expr}
    (same : ∀ expr ∈ exprs, expr.regrouped.text settings = expr.text settings) :
    (regroupedList exprs).map (text settings) = exprs.map (text settings) := by
  rw [regroupedList_eq_map, List.map_map]
  exact List.map_congr_left same

/-- An expression is written as it is written with its assignments regrouped. -/
theorem Surface.text_regrouped {expr : Expr} (surface : expr.Surface) :
    expr.regrouped.text settings = expr.text settings := by
  induction surface with
  | identifier | braced | string => rfl
  | @member target name _ _ same =>
      have last : (Expr.member target.chain.2 name).text settings =
          target.chain.2.text settings ++ ("." ++ name) := by
        rw [text, String.append_assoc]
      have longer := text_assigned_append last target.chain.1
      rw [regrouped, chain, longer, ← regrouped, same, text, String.append_assoc]
  | @invoke callee args _ _ same sameArgs =>
      have last : (Expr.invoke callee.chain.2 (regroupedList args)).text settings =
          callee.chain.2.text settings ++
            ("(" ++ commaSeparated (args.map (text settings)) ++ ")") := by
        rw [text, texts_eq_map, map_text_regrouped sameArgs]
        simp only [String.append_assoc]
      have longer := text_assigned_append last callee.chain.1
      rw [regrouped, chain, longer, ← regrouped, same, text, texts_eq_map]
      simp only [String.append_assoc]
  | @array items _ same =>
      change (Expr.array (regroupedList items)).text settings = _
      rw [text, text, texts_eq_map, texts_eq_map, map_text_regrouped same]
  | @assign target value _ _ sameTarget sameValue =>
      have last : (Expr.assign target.chain.2 value.regrouped).text settings =
          target.chain.2.text settings ++ (" = " ++ value.text settings) := by
        rw [text, sameValue, String.append_assoc]
      have longer := text_assigned_append last target.chain.1
      rw [regrouped, chain, assigned_append]
      change (assigned target.chain.1 (.assign target.chain.2 value.regrouped)).text settings = _
      rw [longer, ← regrouped, sameTarget, text, String.append_assoc]

/-! ## What regrouping leaves alone -/

/-- An expression that is no assignment itself is its own last operand if regrouping leaves it
alone. -/
theorem chain_of_regrouped_eq {expr : Expr} (same : expr.regrouped = expr)
    (noAssign : expr.isAssign = false) : expr.chain = ([], expr) := by
  rw [regrouped] at same
  cases chained : expr.chain with
  | mk targets operand =>
      rw [chained] at same
      cases targets with
      | nil => rw [← same]; rfl
      | cons target rest =>
          rw [← same] at noAssign
          cases noAssign

theorem regroupedList_eq_self {exprs : List Expr} (same : ∀ expr ∈ exprs, expr.regrouped = expr) :
    regroupedList exprs = exprs := by
  rw [regroupedList_eq_map]
  exact (List.map_congr_left same).trans (List.map_id exprs)

theorem Grouped.regrouped_eq {expr : Expr} (grouped : expr.Grouped) : expr.regrouped = expr := by
  induction grouped with
  | identifier | braced | string => rfl
  | member name _ noAssign same =>
      rw [regrouped, chain, chain_of_regrouped_eq same noAssign]
      rfl
  | invoke _ noAssign _ same sameArgs =>
      rw [regrouped, chain, chain_of_regrouped_eq same noAssign, regroupedList_eq_self sameArgs]
      rfl
  | array _ same =>
      rw [regrouped, chain, regroupedList_eq_self same]
      rfl
  | @assign target value _ noAssign _ same sameValue =>
      rw [regrouped, chain, chain_of_regrouped_eq same noAssign]
      change Expr.assign target value.regrouped = _
      rw [sameValue]

/-! ## What regrouping makes -/

theorem Grouped.assigned {targets : List Expr} {value : Expr} (grouped : value.Grouped)
    (heads : ∀ target ∈ targets, target.Grouped ∧ target.isAssign = false) :
    (assigned targets value).Grouped := by
  induction targets with
  | nil => exact grouped
  | cons target rest ih =>
      rw [List.forall_mem_cons] at heads
      exact .assign heads.1.1 heads.1.2 (ih heads.2)

/-- The targets of a chain and its last operand are grouped, and none of them is an assignment. -/
theorem Surface.grouped_chain {expr : Expr} (surface : expr.Surface) :
    (∀ target ∈ expr.chain.1, target.Grouped ∧ target.isAssign = false) ∧
      expr.chain.2.Grouped ∧ expr.chain.2.isAssign = false := by
  induction surface with
  | identifier => exact ⟨by simp [chain], .identifier _, rfl⟩
  | braced => exact ⟨by simp [Script.braced, chain], .braced _, rfl⟩
  | string value => exact ⟨by simp [chain], .string value, rfl⟩
  | member _ _ target =>
      obtain ⟨heads, operand, noAssign⟩ := target
      exact ⟨heads, .member _ operand noAssign, rfl⟩
  | invoke _ _ callee args =>
      obtain ⟨heads, operand, noAssign⟩ := callee
      refine ⟨heads, .invoke operand noAssign ?_, rfl⟩
      rw [regroupedList_eq_map, List.forall_mem_map]
      exact fun arg isArg => (args arg isArg).2.1.assigned (args arg isArg).1
  | array _ items =>
      refine ⟨by simp [chain], .array ?_, rfl⟩
      rw [regroupedList_eq_map, List.forall_mem_map]
      exact fun item isItem => (items item isItem).2.1.assigned (items item isItem).1
  | assign _ _ target value =>
      refine ⟨?_, value.2⟩
      rw [chain, List.forall_mem_append, List.forall_mem_cons]
      exact ⟨target.1, target.2, value.1⟩

theorem Surface.grouped_regrouped {expr : Expr} (surface : expr.Surface) :
    expr.regrouped.Grouped :=
  surface.grouped_chain.2.1.assigned surface.grouped_chain.1

end Expr

end MethodGroups.Script
