import MethodGroups.Proofs.Script.Literals
import MethodGroups.Proofs.Script.Regrouping

/-!
# A reader of script expressions

The reader goes through a text character by character.  What it has read and cannot place yet
is kept in frames, one for each bracket that is open and one for each assignment whose value is
being read.  Member reads and calls belong to the operand right before them.  An assignment ends
where nothing else can go on, at a comma, at a closing bracket or at the end of the text, so it
binds weaker than member reads and calls, and a chain of assignments is taken from the right.

Main statement: the text of a tree made of the expressions of the language itself is read as
that tree with its assignments regrouped.
-/

namespace MethodGroups.Script

/-! ## The reader -/

/-- What is open around the place that is read. -/
inductive Frame where
  /-- The right side of an assignment to a target. -/
  | value (target : Expr)
  /-- The arguments of a callee, or the items of a list if there is none, as far as they are
  complete. -/
  | items (callee? : Option Expr) (complete : List Expr)

/-- What stands at the place that is read. -/
inductive Focus where
  /-- A name as far as it is read, of a member of a target or of a variable.  As long as the name
  of a variable is empty, any operand may begin. -/
  | name (target? : Option Expr) (chars : List Char)
  /-- A string literal as far as it is read. -/
  | quoted (content : List Char)
  /-- A string literal up to a backslash. -/
  | escaped (content : List Char)
  /-- A name in braces as far as it is read. -/
  | braced (name : List Char)
  /-- A complete operand. -/
  | operand (expr : Expr)

/-- How far a text is read. -/
structure Reading where
  /-- What is open, innermost first. -/
  frames : List Frame
  focus : Focus

/-- The member of a target, or the variable if there is no target, of a name. -/
def called : Option Expr → String → Expr
  | none, name => .identifier name
  | some target, name => .member target name

/-- The operand that ends at the place that is read. -/
def Focus.operand? : Focus → Option Expr
  | .name target? chars =>
      if chars.isEmpty then none else some (called target? (String.ofList chars))
  | .operand expr => some expr
  | .quoted _ | .escaped _ | .braced _ => none

/-- The arguments of a callee make a call, and items without one make a list. -/
def gathered : Option Expr → List Expr → Expr
  | none, items => .array items
  | some callee, args => .invoke callee args

/-- The mark that closes a list or a call. -/
def closing : Option Expr → Char
  | none => ']'
  | some _ => ')'

/-- The start of an operand. -/
def Focus.start : Focus := .name none []

/-- The assignments that end with an operand, put together, and what is open around them. -/
def settle : List Frame → Expr → List Frame × Expr
  | .value target :: frames, value => settle frames (.assign target value)
  | frames, expr => (frames, expr)

namespace Reading

/-- Read a mark right behind an operand. -/
def behindOperand (frames : List Frame) (operand : Expr) (c : Char) : Option Reading :=
  if c = ' ' then some ⟨frames, .operand operand⟩
  else if c = '.' then some ⟨frames, .name (some operand) []⟩
  else if c = '(' then some ⟨.items (some operand) [] :: frames, .start⟩
  else if c = '=' then some ⟨.value operand :: frames, .start⟩
  else
    match settle frames operand with
    | (.items callee? complete :: outer, item) =>
        if c = ',' then some ⟨.items callee? (complete ++ [item]) :: outer, .start⟩
        else if c = closing callee? then
          some ⟨outer, .operand (gathered callee? (complete ++ [item]))⟩
        else none
    | _ => none

/-- Read a mark where an operand may begin. -/
def beforeOperand (frames : List Frame) (c : Char) : Option Reading :=
  if c = ' ' then some ⟨frames, .start⟩
  else if c = '\'' then some ⟨frames, .quoted []⟩
  else if c = '{' then some ⟨frames, .braced []⟩
  else if c = '[' then some ⟨.items none [] :: frames, .start⟩
  else
    match frames with
    | .items callee? [] :: outer =>
        if c = closing callee? then some ⟨outer, .operand (gathered callee? [])⟩ else none
    | _ => none

/-- Read a mark behind a name, or where a variable may begin. -/
def endName (frames : List Frame) (target? : Option Expr) (chars : List Char) (c : Char) :
    Option Reading :=
  match (Focus.name target? chars).operand? with
  | some operand => behindOperand frames operand c
  | none => if target?.isNone then beforeOperand frames c else none

/-- Read one character. -/
def step : Reading → Char → Option Reading
  | ⟨frames, .quoted content⟩, c =>
      if c = '\'' then some ⟨frames, .operand (.string (String.ofList content))⟩
      else if c = '\\' then some ⟨frames, .escaped content⟩
      else some ⟨frames, .quoted (content ++ [c])⟩
  | ⟨frames, .escaped content⟩, c =>
      (Quoted.unescape c).map fun meant => ⟨frames, .quoted (content ++ [meant])⟩
  | ⟨frames, .braced name⟩, c =>
      if c = '}' then some ⟨frames, .operand (Script.braced (String.ofList name))⟩
      else some ⟨frames, .braced (name ++ [c])⟩
  | ⟨frames, .operand expr⟩, c => behindOperand frames expr c
  | ⟨frames, .name target? chars⟩, c =>
      if isMark c then endName frames target? chars c
      else some ⟨frames, .name target? (chars ++ [c])⟩

/-- Read one character after the other. -/
def steps (reading : Reading) (text : List Char) : Option Reading := text.foldlM step reading

/-- The expression that was read, if nothing is left open. -/
def result? (reading : Reading) : Option Expr := do
  let operand ← reading.focus.operand?
  match settle reading.frames operand with
  | ([], expr) => some expr
  | _ => none

end Reading

/-- The expression that a text is read as. -/
def Expr.ofText? (text : String) : Option Expr := do
  let reading ← Reading.steps ⟨[], .start⟩ text.toList
  reading.result?

/-! ## Steps of the reader -/

namespace Reading

theorem steps_nil (reading : Reading) : steps reading [] = some reading := rfl

theorem steps_cons (reading : Reading) (c : Char) (text : List Char) :
    steps reading (c :: text) = (step reading c).bind fun next => steps next text := by
  rw [steps, List.foldlM_cons]
  rfl

theorem steps_append (reading : Reading) (first second : List Char) :
    steps reading (first ++ second) =
      (steps reading first).bind fun next => steps next second := by
  rw [steps, List.foldlM_append]
  rfl

/-- A mark is read alike behind every form of the same operand. -/
theorem step_of_operand? {frames : List Frame} {focus : Focus} {operand : Expr}
    (ends : focus.operand? = some operand) {c : Char} (mark : isMark c = true) :
    step ⟨frames, focus⟩ c = behindOperand frames operand c := by
  cases focus with
  | quoted | escaped | braced => cases ends
  | operand expr =>
      cases ends
      rfl
  | name target? chars =>
      rw [step, if_pos mark, endName, ends]

theorem step_start {frames : List Frame} {c : Char} (mark : isMark c = true) :
    step ⟨frames, .start⟩ c = beforeOperand frames c := by
  rw [Focus.start, step, if_pos mark]
  rfl

theorem steps_name {frames : List Frame} {target? : Option Expr} {chars : List Char}
    (plain : ∀ c ∈ chars, isMark c = false) (before : List Char) :
    steps ⟨frames, .name target? before⟩ chars =
      some ⟨frames, .name target? (before ++ chars)⟩ := by
  induction chars generalizing before with
  | nil => rw [steps_nil, List.append_nil]
  | cons c rest ih =>
      rw [List.forall_mem_cons] at plain
      rw [steps_cons, step, plain.1, if_neg Bool.false_ne_true, Option.bind_some, ih plain.2,
        List.append_assoc, List.singleton_append]

theorem steps_braced (frames : List Frame) {name : List Char} (closed : '}' ∉ name)
    (before : List Char) :
    steps ⟨frames, .braced before⟩ (name ++ ['}']) =
      some ⟨frames, .operand (Script.braced (String.ofList (before ++ name)))⟩ := by
  induction name generalizing before with
  | nil => rw [List.append_nil]; rfl
  | cons c rest ih =>
      rw [List.mem_cons, not_or] at closed
      rw [List.cons_append, steps_cons, step, if_neg (Ne.symm closed.1), Option.bind_some,
        ih closed.2, List.append_assoc, List.singleton_append]

theorem steps_quoted (frames : List Frame) (content before : List Char) :
    steps ⟨frames, .quoted before⟩ (Quoted.encode content ++ ['\'']) =
      some ⟨frames, .operand (.string (String.ofList (before ++ content)))⟩ := by
  induction content generalizing before with
  | nil => rw [List.append_nil]; rfl
  | cons c rest ih =>
      rw [Quoted.encode_cons, List.append_assoc, steps_append]
      have one : steps ⟨frames, .quoted before⟩ (Quoted.escape c) =
          some ⟨frames, .quoted (before ++ [c])⟩ := by
        rcases Quoted.escape_cases c with ⟨written, noQuote, noBackslash, -⟩ |
          ⟨shown, written, meant, -⟩
        · rw [written, steps_cons, step, if_neg noQuote, if_neg noBackslash]
          rfl
        · rw [written, steps_cons, step, if_neg (by decide), if_pos rfl, Option.bind_some,
            steps_cons, step, meant]
          rfl
      rw [one, Option.bind_some, ih, List.append_assoc, List.singleton_append]

theorem operand?_name {name : String} (plain : IsPlain name) (target? : Option Expr) :
    (Focus.name target? name.toList).operand? = some (called target? name) := by
  have nonempty : name.toList.isEmpty = false := by
    rw [List.isEmpty_eq_false_iff]
    simpa using plain.1
  rw [Focus.operand?, nonempty, if_neg Bool.false_ne_true, String.ofList_toList]

end Reading

/-! ## The reader on the text of a tree -/

/-- Frames with assignments to targets opened inside of them, one after the other. -/
def opened (frames : List Frame) (targets : List Expr) : List Frame :=
  targets.foldl (fun around target => .value target :: around) frames

theorem settle_opened (frames : List Frame) (targets : List Expr) (value : Expr) :
    settle (opened frames targets) value = settle frames (Expr.assigned targets value) := by
  induction targets generalizing frames with
  | nil => rfl
  | cons target rest ih =>
      rw [opened, List.foldl_cons, ← opened, ih, settle]
      rfl

theorem opened_append (frames : List Frame) (outer inner : List Expr) :
    opened frames (outer ++ inner) = opened (opened frames outer) inner := by
  rw [opened, List.foldl_append, ← opened, ← opened]

namespace Reading

/-- A closing mark behind an operand closes the assignments that end there, and then the list or
the call around them. -/
theorem behindOperand_closing (callee? : Option Expr) (complete : List Expr) (frames : List Frame)
    (targets : List Expr) (operand : Expr) :
    behindOperand (opened (.items callee? complete :: frames) targets) operand (closing callee?) =
      some ⟨frames, .operand (gathered callee? (complete ++ [Expr.assigned targets operand]))⟩ := by
  rw [behindOperand, settle_opened]
  cases callee? <;> rfl

/-- A comma behind an operand closes the assignments that end there. -/
theorem behindOperand_comma (callee? : Option Expr) (complete : List Expr) (frames : List Frame)
    (targets : List Expr) (operand : Expr) :
    behindOperand (opened (.items callee? complete :: frames) targets) operand ',' =
      some ⟨.items callee? (complete ++ [Expr.assigned targets operand]) :: frames, .start⟩ := by
  rw [behindOperand, settle_opened]
  rfl

theorem beforeOperand_closing (callee? : Option Expr) (frames : List Frame) :
    beforeOperand (.items callee? [] :: frames) (closing callee?) =
      some ⟨frames, .operand (gathered callee? [])⟩ := by
  cases callee? <;> rfl

theorem isMark_closing (callee? : Option Expr) : isMark (closing callee?) = true := by
  cases callee? <;> rfl

theorem steps_blank (frames : List Frame) (text : List Char) :
    steps ⟨frames, .start⟩ (' ' :: text) = steps ⟨frames, .start⟩ text := by
  rw [steps_cons, step_start rfl]
  rfl

end Reading

theorem text_braced (settings : Settings) (name : String) :
    (braced name).text settings = "\x7b" ++ name ++ "\x7d" := by
  rw [braced, Expr.text, TypeRef.text, typeNameText]
  split <;> rfl

namespace Expr

open Reading

variable {settings : Settings}

/-- Wherever the text of the expression is read from, the assignments that it leaves open are
those to the targets of its chain, and its last operand comes last. -/
def Reads (settings : Settings) (expr : Expr) : Prop :=
  ∀ frames, ∃ focus,
    steps ⟨frames, .start⟩ (expr.text settings).toList = some ⟨opened frames expr.chain.1, focus⟩ ∧
      focus.operand? = some expr.chain.2

/-- A mark behind the text of an expression is read as a mark behind its last operand. -/
theorem Reads.steps_mark {expr : Expr} (reads : expr.Reads settings) (frames : List Frame)
    {c : Char} (mark : isMark c = true) (rest : List Char) :
    steps ⟨frames, .start⟩ ((expr.text settings).toList ++ c :: rest) =
      (behindOperand (opened frames expr.chain.1) expr.chain.2 c).bind fun next =>
        steps next rest := by
  obtain ⟨focus, read, ends⟩ := reads frames
  rw [steps_append, read, Option.bind_some, steps_cons, step_of_operand? ends mark]

/-- Items are read up to the mark that closes them, each with its assignments regrouped. -/
theorem steps_items (frames : List Frame) (callee? : Option Expr) :
    {items complete : List Expr} →
    (items = [] → complete = []) → (∀ item ∈ items, item.Reads settings) →
    steps ⟨.items callee? complete :: frames, .start⟩
        ((commaSeparated (items.map (text settings))).toList ++ [closing callee?]) =
      some ⟨frames, .operand (gathered callee? (complete ++ items.map regrouped))⟩
  | [], complete, isFirst, _ => by
      rw [isFirst rfl]
      change steps _ [closing callee?] = _
      rw [steps_cons, step_start (isMark_closing callee?), beforeOperand_closing]
      rfl
  | [item], complete, _, reads => by
      have itemReads := reads item (List.mem_singleton_self item)
      change steps _ ((text settings item).toList ++ [closing callee?]) = _
      rw [itemReads.steps_mark _ (isMark_closing callee?), behindOperand_closing]
      rfl
  | item :: next :: rest, complete, _, reads => by
      rw [List.forall_mem_cons] at reads
      have remaining := @steps_items frames callee? (next :: rest) (complete ++ [item.regrouped])
        (fun isEmpty => absurd isEmpty (List.cons_ne_nil next rest)) reads.2
      have written : (commaSeparated ((item :: next :: rest).map (text settings))).toList =
          (item.text settings).toList ++
            ',' :: ' ' :: (commaSeparated ((next :: rest).map (text settings))).toList := by
        simp [commaSeparated]
      rw [written, List.append_assoc, List.cons_append, reads.1.steps_mark _ rfl,
        behindOperand_comma, Option.bind_some, List.cons_append, steps_blank, ← regrouped,
        remaining, List.append_assoc, List.singleton_append, List.map_cons (l := next :: rest)]

theorem Surface.reads {expr : Expr} (surface : expr.Surface) (settings : Settings) :
    expr.Reads settings := by
  induction surface with
  | @identifier name plain =>
      intro frames
      refine ⟨.name none name.toList, ?_, operand?_name plain none⟩
      rw [text]
      exact steps_name plain.2 []
  | @braced name closed =>
      intro frames
      refine ⟨.operand (Script.braced name), ?_, rfl⟩
      have written : ((Script.braced name).text settings).toList =
          '{' :: (name.toList ++ ['}']) := by
        simp [text_braced]
      have inside := steps_braced frames closed []
      rw [List.nil_append, String.ofList_toList] at inside
      rw [written, steps_cons, step_start rfl]
      exact inside
  | string value =>
      intro frames
      refine ⟨.operand (.string value), ?_, rfl⟩
      have inside := steps_quoted frames value.toList []
      rw [List.nil_append, String.ofList_toList] at inside
      have written : ((Expr.string value).text settings).toList =
          '\'' :: (Quoted.encode value.toList ++ ['\'']) := by
        simp [text, Quoted.literal]
      rw [written, steps_cons, step_start rfl]
      exact inside
  | @array items _ reads =>
      intro frames
      refine ⟨.operand (.array (regroupedList items)), ?_, rfl⟩
      have inside := steps_items frames none (fun _ => rfl) reads
      have written : ((Expr.array items).text settings).toList =
          '[' :: ((commaSeparated (items.map (text settings))).toList ++ [']']) := by
        simp [text]
      rw [written, steps_cons, step_start rfl, regroupedList_eq_map]
      exact inside
  | @member target name _ plain reads =>
      intro frames
      refine ⟨.name (some target.chain.2) name.toList, ?_, operand?_name plain _⟩
      have written : ((Expr.member target name).text settings).toList =
          (target.text settings).toList ++ '.' :: name.toList := by
        simp [text]
      rw [written, reads.steps_mark frames rfl]
      exact steps_name plain.2 []
  | @invoke callee args _ _ readsCallee readsArgs =>
      intro frames
      refine ⟨.operand (.invoke callee.chain.2 (regroupedList args)), ?_, rfl⟩
      have inside := steps_items (opened frames callee.chain.1) (some callee.chain.2)
        (fun _ => rfl) readsArgs
      have written : ((Expr.invoke callee args).text settings).toList =
          (callee.text settings).toList ++
            '(' :: ((commaSeparated (args.map (text settings))).toList ++ [')']) := by
        simp [text]
      rw [written, readsCallee.steps_mark frames rfl, regroupedList_eq_map]
      exact inside
  | @assign target value _ _ readsTarget readsValue =>
      intro frames
      obtain ⟨focus, read, ends⟩ :=
        readsValue (.value target.chain.2 :: opened frames target.chain.1)
      refine ⟨focus, ?_, ends⟩
      have written : ((Expr.assign target value).text settings).toList =
          (target.text settings).toList ++ ' ' :: '=' :: ' ' :: (value.text settings).toList := by
        simp [text]
      rw [written, readsTarget.steps_mark frames rfl]
      change steps ⟨opened frames target.chain.1, .operand target.chain.2⟩ _ = _
      rw [steps_cons]
      change steps ⟨.value target.chain.2 :: opened frames target.chain.1, .start⟩ _ = _
      rw [steps_blank, read, chain, opened_append]
      rfl

/-- The text of an expression of the language itself is read as this expression with its
assignments regrouped. -/
theorem Surface.ofText?_text {expr : Expr} (surface : expr.Surface) (settings : Settings) :
    ofText? (expr.text settings) = some expr.regrouped := by
  obtain ⟨focus, read, ends⟩ := surface.reads settings []
  rw [ofText?, read, Option.bind_eq_bind, Option.bind_some, result?, ends, Option.bind_eq_bind,
    Option.bind_some, settle_opened]
  rfl

/-- Two expressions that need no parentheses are told apart by their texts. -/
theorem Grouped.eq_of_text_eq {left right : Expr} (leftGrouped : left.Grouped)
    (rightGrouped : right.Grouped) (isLeft : left.Surface) (isRight : right.Surface)
    (same : left.text settings = right.text settings) : left = right := by
  have readLeft := isLeft.ofText?_text settings
  rw [same, isRight.ofText?_text settings, leftGrouped.regrouped_eq,
    rightGrouped.regrouped_eq] at readLeft
  exact (Option.some.inj readLeft).symm

end Expr

end MethodGroups.Script
