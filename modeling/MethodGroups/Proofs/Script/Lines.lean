import MethodGroups.Script.Text

/-!
# One statement per line

Statements are told apart by line feeds, so no other line feed may get into the text.  Names
are written as they are, and stay on their line if they hold no line feed themselves.  The two
kinds of text that may hold one, string literals and the names in base calls, are written
between quotes, where a line feed is escaped.  So the text of an expression stays on its line
whatever its depth, and the lines of a text are the statements that it was written for.
-/

namespace MethodGroups

/-! ## The names that are written as they are -/

/-- All helper names. -/
def HelperNames.all (helpers : HelperNames) : List String :=
  [helpers.bind, helpers.bindBaseCall, helpers.instantiateGenericMethod,
    helpers.instantiateGenericType, helpers.bindFirstParameterToThis]

/-- The configured names that get into script text. -/
def Settings.names (settings : Settings) : List String :=
  settings.typeParameterPrefix :: settings.helpers.all

namespace Script

mutual

/-- The names of types, scopes and type parameters in a reference. -/
def TypeRef.names : TypeRef → List String
  | .named name => [name.scope, name.name]
  | .instantiated generic args => generic.scope :: generic.name :: TypeRef.namesList args
  | .param name => [name]
  | .array => []

/-- The names in a list of references. -/
def TypeRef.namesList : List TypeRef → List String
  | [] => []
  | type :: rest => type.names ++ TypeRef.namesList rest

end

mutual

/-- The names of variables, members, types, scopes and type parameters in an expression.  The
name in a base call is not among them: it stands between quotes. -/
def Expr.names : Expr → List String
  | .self | .null | .string _ => []
  | .identifier name => [name]
  | .typeRef type => type.names
  | .member target name => name :: target.names
  | .array items => Expr.namesList items
  | .invoke callee args => callee.names ++ Expr.namesList args
  | .assign target value => target.names ++ value.names
  | .instantiateMethod method typeArgs => method.names ++ TypeRef.namesList typeArgs
  | .bind method receiver => method.names ++ receiver.names
  | .bindBaseCall ancestor _ typeArgs receiver =>
      ancestor.names ++ TypeRef.namesList typeArgs ++ receiver.names
  | .bindFirstParameterToThis function => function.names

/-- The names in a list of expressions. -/
def Expr.namesList : List Expr → List String
  | [] => []
  | expr :: rest => expr.names ++ Expr.namesList rest

end

/-- The names in a statement. -/
def Stmt.names : Stmt → List String
  | .declare name none => [name]
  | .declare name (some value) => name :: value.names
  | .expr effect => effect.names

/-! ## Texts without a line feed -/

/-- A text that stays on the line where it starts. -/
def OnOneLine (text : String) : Prop := '\n' ∉ text.toList

instance : DecidablePred OnOneLine := fun text => inferInstanceAs (Decidable ('\n' ∉ text.toList))

@[simp] theorem onOneLine_append {left right : String} :
    OnOneLine (left ++ right) ↔ OnOneLine left ∧ OnOneLine right := by
  simp [OnOneLine, not_or]

theorem onOneLine_commaSeparated : {items : List String} → (∀ item ∈ items, OnOneLine item) →
    OnOneLine (commaSeparated items)
  | [], _ => by decide
  | [item], stay => by simpa [commaSeparated] using stay
  | first :: second :: rest, stay => by
      rw [List.forall_mem_cons] at stay
      rw [commaSeparated, String.intercalate_cons_cons, onOneLine_append, onOneLine_append]
      exact ⟨⟨stay.1, by decide⟩, onOneLine_commaSeparated stay.2⟩

theorem onOneLine_helperCall {helper : String} {args : List String} (name : OnOneLine helper)
    (stay : ∀ arg ∈ args, OnOneLine arg) : OnOneLine (helperCall helper args) := by
  rw [helperCall, onOneLine_append, onOneLine_append, onOneLine_append]
  exact ⟨⟨⟨name, by decide⟩, onOneLine_commaSeparated stay⟩, by decide⟩

theorem onOneLine_literal (content : String) : OnOneLine (Quoted.literal content) := by
  rw [Quoted.literal, onOneLine_append, onOneLine_append]
  refine ⟨⟨by decide, ?_⟩, by decide⟩
  rw [OnOneLine, String.toList_ofList]
  exact Quoted.newline_not_mem_encode content.toList

theorem onOneLine_typeNameText (settings : Settings) {type : TypeName}
    (scope : OnOneLine type.scope) (name : OnOneLine type.name) :
    OnOneLine (typeNameText settings type) := by
  have qualified : OnOneLine type.qualified := by
    rw [TypeName.qualified]
    split
    · exact name
    · rw [onOneLine_append, onOneLine_append]
      exact ⟨⟨scope, by decide⟩, name⟩
  rw [typeNameText, onOneLine_append, onOneLine_append]
  refine ⟨⟨by decide, ?_⟩, by decide⟩
  split
  · exact qualified
  · exact name

/-! ## The text of trees -/

variable {settings : Settings}

theorem onOneLine_helper (configured : ∀ name ∈ settings.names, OnOneLine name) {helper : String}
    (isHelper : helper ∈ settings.helpers.all) : OnOneLine helper :=
  configured helper (List.mem_cons_of_mem _ isHelper)

mutual

/-- A type reference is written on one line. -/
theorem TypeRef.onOneLine_text (configured : ∀ name ∈ settings.names, OnOneLine name) :
    (type : TypeRef) → (∀ name ∈ type.names, OnOneLine name) →
    OnOneLine (type.text settings)
  | .named name, stay => by
      simp only [names, List.forall_mem_cons] at stay
      exact onOneLine_typeNameText settings stay.1 stay.2.1
  | .instantiated generic args, stay => by
      simp only [names, List.forall_mem_cons] at stay
      obtain ⟨scope, name, args⟩ := stay
      refine onOneLine_helperCall (onOneLine_helper configured (by simp [HelperNames.all])) ?_
      exact List.forall_mem_cons.mpr
        ⟨onOneLine_typeNameText settings scope name, TypeRef.onOneLine_texts configured _ args⟩
  | .param name, stay => by
      rw [text, onOneLine_append]
      exact ⟨configured _ List.mem_cons_self, stay _ (List.mem_singleton_self name)⟩
  | .array, _ => by
      rw [text]
      decide

/-- Type references are each written on one line. -/
theorem TypeRef.onOneLine_texts (configured : ∀ name ∈ settings.names, OnOneLine name) :
    (types : List TypeRef) →
    (∀ name ∈ TypeRef.namesList types, OnOneLine name) →
    ∀ text ∈ TypeRef.texts settings types, OnOneLine text
  | [], _ => by simp [texts]
  | type :: rest, stay => by
      rw [namesList, List.forall_mem_append] at stay
      rw [texts, List.forall_mem_cons]
      exact ⟨TypeRef.onOneLine_text configured type stay.1,
        TypeRef.onOneLine_texts configured rest stay.2⟩

end

mutual

/-- An expression is written on one line. -/
theorem Expr.onOneLine_text (configured : ∀ name ∈ settings.names, OnOneLine name) :
    (expr : Expr) → (∀ name ∈ expr.names, OnOneLine name) →
    OnOneLine (expr.text settings)
  | .self, _ | .null, _ => by
      rw [text]
      decide
  | .identifier name, stay => stay _ (List.mem_singleton_self name)
  | .typeRef type, stay => type.onOneLine_text configured stay
  | .string value, _ => onOneLine_literal value
  | .member target name, stay => by
      rw [names, List.forall_mem_cons] at stay
      rw [text, onOneLine_append, onOneLine_append]
      exact ⟨⟨target.onOneLine_text configured stay.2, by decide⟩, stay.1⟩
  | .array items, stay => by
      have items := onOneLine_commaSeparated (Expr.onOneLine_texts configured items stay)
      rw [text, onOneLine_append, onOneLine_append]
      exact ⟨⟨by decide, items⟩, by decide⟩
  | .invoke callee args, stay => by
      rw [names, List.forall_mem_append] at stay
      exact onOneLine_helperCall (callee.onOneLine_text configured stay.1)
        (Expr.onOneLine_texts configured args stay.2)
  | .assign target value, stay => by
      rw [names, List.forall_mem_append] at stay
      rw [text, onOneLine_append, onOneLine_append]
      exact ⟨⟨target.onOneLine_text configured stay.1, by decide⟩,
        value.onOneLine_text configured stay.2⟩
  | .instantiateMethod method typeArgs, stay => by
      rw [names, List.forall_mem_append] at stay
      refine onOneLine_helperCall (onOneLine_helper configured (by simp [HelperNames.all])) ?_
      rw [← TypeRef.texts_eq_map]
      exact List.forall_mem_cons.mpr
        ⟨method.onOneLine_text configured stay.1,
          TypeRef.onOneLine_texts configured typeArgs stay.2⟩
  | .bind method receiver, stay => by
      rw [names, List.forall_mem_append] at stay
      refine onOneLine_helperCall (onOneLine_helper configured (by simp [HelperNames.all])) ?_
      rw [List.forall_mem_cons, List.forall_mem_singleton]
      exact ⟨method.onOneLine_text configured stay.1, receiver.onOneLine_text configured stay.2⟩
  | .bindBaseCall ancestor name typeArgs receiver, stay => by
      rw [names, List.forall_mem_append, List.forall_mem_append] at stay
      obtain ⟨⟨ancestorStays, argsStay⟩, receiverStays⟩ := stay
      have args := onOneLine_commaSeparated (TypeRef.onOneLine_texts configured typeArgs argsStay)
      rw [TypeRef.texts_eq_map] at args
      refine onOneLine_helperCall (onOneLine_helper configured (by simp [HelperNames.all])) ?_
      simp only [List.forall_mem_cons, onOneLine_append]
      exact ⟨ancestor.onOneLine_text configured ancestorStays, onOneLine_literal name,
        ⟨⟨by decide, args⟩, by decide⟩, receiver.onOneLine_text configured receiverStays, by simp⟩
  | .bindFirstParameterToThis function, stay => by
      refine onOneLine_helperCall (onOneLine_helper configured (by simp [HelperNames.all])) ?_
      simpa only [List.forall_mem_singleton] using function.onOneLine_text configured stay

/-- Expressions are each written on one line. -/
theorem Expr.onOneLine_texts (configured : ∀ name ∈ settings.names, OnOneLine name) :
    (exprs : List Expr) →
    (∀ name ∈ Expr.namesList exprs, OnOneLine name) →
    ∀ text ∈ Expr.texts settings exprs, OnOneLine text
  | [], _ => by simp [texts]
  | expr :: rest, stay => by
      rw [namesList, List.forall_mem_append] at stay
      rw [texts, List.forall_mem_cons]
      exact ⟨expr.onOneLine_text configured stay.1, Expr.onOneLine_texts configured rest stay.2⟩

end

/-- A statement is written on one line. -/
theorem Stmt.onOneLine_text (configured : ∀ name ∈ settings.names, OnOneLine name) (stmt : Stmt)
    (stay : ∀ name ∈ stmt.names, OnOneLine name) :
    OnOneLine (stmt.text settings) := by
  cases stmt with
  | declare name value =>
      cases value with
      | none =>
          rw [text, onOneLine_append]
          exact ⟨by decide, stay _ (List.mem_singleton_self name)⟩
      | some value =>
          rw [names, List.forall_mem_cons] at stay
          rw [text, onOneLine_append, onOneLine_append, onOneLine_append]
          exact ⟨⟨⟨by decide, stay.1⟩, by decide⟩, value.onOneLine_text configured stay.2⟩
  | expr effect => exact effect.onOneLine_text configured stay

/-! ## The lines of a list of statements -/

namespace Stmt

/-- The line of a statement, up to the line feed that ends it. -/
def content (settings : Settings) (indent : Nat) (stmt : Stmt) : String :=
  String.ofList (List.replicate indent '\t') ++ stmt.text settings ++ ";"

theorem toList_line (settings : Settings) (indent : Nat) (stmt : Stmt) :
    (line settings indent stmt).toList = (stmt.content settings indent).toList ++ ['\n'] := by
  simp [line, content]

theorem onOneLine_content (configured : ∀ name ∈ settings.names, OnOneLine name) (indent : Nat)
    {stmt : Stmt} (stay : ∀ name ∈ stmt.names, OnOneLine name) :
    OnOneLine (stmt.content settings indent) := by
  rw [content, onOneLine_append, onOneLine_append]
  refine ⟨⟨?_, stmt.onOneLine_text configured stay⟩, by decide⟩
  simp [OnOneLine, List.mem_replicate]

theorem lines_cons (settings : Settings) (indent : Nat) (stmt : Stmt) (rest : List Stmt) :
    lines settings indent (stmt :: rest) =
      line settings indent stmt ++ lines settings indent rest := by
  rw [lines, List.map_cons, String.join_cons, ← lines]

theorem lines_append (settings : Settings) (indent : Nat) (first second : List Stmt) :
    lines settings indent (first ++ second) =
      lines settings indent first ++ lines settings indent second := by
  rw [lines, List.map_append, String.join_append, ← lines, ← lines]

/-- The lines of a text are the statements, as long as each stays on its line. -/
theorem splitOn_lines {settings : Settings} {indent : Nat} : {stmts : List Stmt} →
    (∀ stmt ∈ stmts, OnOneLine (stmt.content settings indent)) →
    (lines settings indent stmts).toList.splitOn '\n' =
      stmts.map (fun stmt => (stmt.content settings indent).toList) ++ [[]]
  | [], _ => rfl
  | stmt :: rest, stay => by
      rw [List.forall_mem_cons] at stay
      rw [lines_cons, String.toList_append, toList_line, List.append_assoc, List.singleton_append,
        List.splitOn_append_cons_self_of_not_mem stay.1, splitOn_lines stay.2, List.map_cons,
        List.cons_append]

/-- One line feed is written for each statement, as long as each stays on its line. -/
theorem count_lines {settings : Settings} {indent : Nat} : {stmts : List Stmt} →
    (∀ stmt ∈ stmts, OnOneLine (stmt.content settings indent)) →
    (lines settings indent stmts).toList.count '\n' = stmts.length
  | [], _ => rfl
  | stmt :: rest, stay => by
      rw [List.forall_mem_cons] at stay
      have own : (stmt.content settings indent).toList.count '\n' = 0 :=
        List.count_eq_zero_of_not_mem stay.1
      rw [lines_cons, String.toList_append, toList_line, List.count_append, List.count_append, own,
        count_lines stay.2, List.count_singleton_self, List.length_cons]
      omega

/-- Statements are written line by line: a line feed for each of them and no other, and between
the line feeds the statements in order, whatever string literals and quoted names they hold.
Texts of lists of statements are put together by appending them. -/
theorem lines_of_statements {settings : Settings}
    (configured : ∀ name ∈ settings.names, OnOneLine name) (indent : Nat) {stmts : List Stmt}
    (named : ∀ stmt ∈ stmts, ∀ name ∈ stmt.names, OnOneLine name) :
    (lines settings indent stmts).toList.count '\n' = stmts.length ∧
      (lines settings indent stmts).toList.splitOn '\n' =
        stmts.map (fun stmt => (stmt.content settings indent).toList) ++ [[]] ∧
      ∀ first second, stmts = first ++ second →
        lines settings indent stmts =
          lines settings indent first ++ lines settings indent second := by
  have stay : ∀ stmt ∈ stmts, OnOneLine (stmt.content settings indent) :=
    fun stmt isStmt => onOneLine_content configured indent (named stmt isStmt)
  refine ⟨count_lines stay, splitOn_lines stay, ?_⟩
  rintro first second rfl
  exact lines_append settings indent first second

/-- A variable for text of two lines, a base call of a member whose name has two lines, and a
variable without a value. -/
def brokenTexts : List Stmt :=
  [.declare "tmp1" (some (.string "a\nb")),
    .expr (.bindBaseCall (.instantiated ⟨"N", "B"⟩ [.param "T"]) "F\nG" [.array] .self),
    .declare "g" none]

/-- Three statements take three lines, although two of them hold a line feed. -/
theorem splitOn_brokenTexts :
    (∀ name ∈ Settings.standard.names, OnOneLine name) ∧
      (∀ stmt ∈ brokenTexts, ∀ name ∈ stmt.names, OnOneLine name) ∧
      (lines .standard 1 brokenTexts).toList.count '\n' = 3 ∧
      (lines .standard 1 brokenTexts).toList.splitOn '\n' =
        ["\tvar tmp1 = 'a\\nb';".toList,
          "\t$BindBaseCall($InstantiateGenericType({B}, $T), 'F\\nG', [{Array}], this);".toList,
          "\tvar g;".toList, []] := by
  have configured : ∀ name ∈ Settings.standard.names, OnOneLine name := by decide
  have named : ∀ stmt ∈ brokenTexts, ∀ name ∈ stmt.names, OnOneLine name := by decide
  obtain ⟨count, split, -⟩ := lines_of_statements configured 1 named
  refine ⟨configured, named, count, split.trans ?_⟩
  decide

end Stmt

end Script

end MethodGroups
