import MethodGroups.Proofs.Script.Lines
import MethodGroups.Proofs.Script.Reader
import MethodGroups.Proofs.Ty.Names

/-!
# Texts that tell the tree

With scopes written out and under plain names, the text of a tree of helper calls determines the
tree.  To a reader who does not know the helpers a tree is an expression of the script language
itself: a helper is a variable that is called, a type is a name in braces, a call or a variable,
and so are `this` and `null`.  Nothing is lost when the tree is spelled out this way, since the
helpers have different names and no variable is called `this` or `null`.
-/

namespace MethodGroups

/-! ## Names of types -/

namespace Script

/-- The root scope, or plain names joined by dots. -/
def IsScope (scope : String) : Prop :=
  ∃ parts : List String, (∀ part ∈ parts, IsPlain part) ∧ scope = ".".intercalate parts

theorem not_mem_of_isPlain {name : String} (plain : IsPlain name) {c : Char}
    (mark : isMark c = true) : c ∉ name.toList := by
  intro isChar
  rw [plain.2 c isChar] at mark
  cases mark

theorem dot_not_mem_of_isPlain {name : String} (plain : IsPlain name) : '.' ∉ name.toList :=
  not_mem_of_isPlain plain rfl

theorem not_mem_intercalate {c : Char} {separator : String} (other : c ∉ separator.toList) :
    {parts : List String} → (∀ part ∈ parts, c ∉ part.toList) →
      c ∉ (separator.intercalate parts).toList
  | [], _ => by simp
  | [part], without => by simpa using without
  | first :: second :: rest, without => by
      rw [List.forall_mem_cons] at without
      have remaining := not_mem_intercalate other without.2
      rw [String.intercalate_cons_cons, String.toList_append, String.toList_append,
        List.mem_append, List.mem_append, not_or, not_or]
      exact ⟨⟨without.1, other⟩, remaining⟩

end Script

/-- A plain name in the root scope or in a scope of plain names. -/
structure TypeName.Legible (type : TypeName) : Prop where
  scope : Script.IsScope type.scope
  name : Script.IsPlain type.name

theorem TypeName.Legible.closed {type : TypeName} (plain : type.Legible) :
    '}' ∉ type.qualified.toList := by
  have inName := Script.not_mem_of_isPlain plain.name (show Script.isMark '}' = true from rfl)
  obtain ⟨parts, partsPlain, joined⟩ := plain.scope
  have inScope : '}' ∉ type.scope.toList := by
    rw [joined]
    exact Script.not_mem_intercalate (by decide)
      fun part isPart => Script.not_mem_of_isPlain (partsPlain part isPart) rfl
  by_cases root : type.scope = ""
  · rw [qualified_of_root root]
    exact inName
  · rw [qualified_of_scope root]
    simp [inScope, inName]

namespace Script

/-! ## Trees -/

/-- The type reference is written in plain names, and no named type is the array type. -/
inductive TypeRef.Legible : TypeRef → Prop where
  | named {name : TypeName} : name.Legible → name ≠ ⟨"", "Array"⟩ → Legible (.named name)
  | instantiated {generic : TypeName} {args : List TypeRef} :
      generic.Legible → (∀ arg ∈ args, Legible arg) → Legible (.instantiated generic args)
  | param {name : String} : IsPlain name → Legible (.param name)
  | array : Legible .array

/-- The expression is made of literals, variables, types, lists, member reads and helper calls
under plain names, and no variable has a name that means something else. -/
inductive Expr.Legible : Expr → Prop where
  | self : Legible .self
  | null : Legible .null
  | identifier {name : String} :
      IsPlain name → name ≠ "this" → name ≠ "null" → Legible (.identifier name)
  | string (value : String) : Legible (.string value)
  | named {name : TypeName} : (TypeRef.named name).Legible → Legible (.typeRef (.named name))
  | instantiated {generic : TypeName} {args : List TypeRef} :
      (TypeRef.instantiated generic args).Legible → Legible (.typeRef (.instantiated generic args))
  | array {items : List Expr} : (∀ item ∈ items, Legible item) → Legible (.array items)
  | member {target : Expr} {name : String} :
      Legible target → IsPlain name → Legible (.member target name)
  | instantiateMethod {method : Expr} {typeArgs : List TypeRef} :
      Legible method → (∀ arg ∈ typeArgs, arg.Legible) →
        Legible (.instantiateMethod method typeArgs)
  | bind {method receiver : Expr} :
      Legible method → Legible receiver → Legible (.bind method receiver)
  | bindBaseCall {ancestor : TypeRef} (name : String) {typeArgs : List TypeRef} {receiver : Expr} :
      ancestor.Legible → (∀ arg ∈ typeArgs, arg.Legible) → Legible receiver →
        Legible (.bindBaseCall ancestor name typeArgs receiver)
  | bindFirstParameterToThis {function : Expr} :
      Legible function → Legible (.bindFirstParameterToThis function)

end Script

/-- Scopes are written, and the configured names that get into script text are plain; the helpers
are told apart by their names. -/
structure Settings.Legible (settings : Settings) : Prop where
  qualifies : settings.qualifyTypeNames = true
  plain : ∀ name ∈ settings.names, Script.IsPlain name
  distinct : settings.helpers.all.Nodup

namespace Script

/-! ## Trees spelled out -/

mutual

/-- A type reference as it looks to a reader who does not know the helpers. -/
def TypeRef.spelled (settings : Settings) : TypeRef → Expr
  | .named name => braced name.qualified
  | .instantiated generic args =>
      .invoke (.identifier settings.helpers.instantiateGenericType)
        (braced generic.qualified :: TypeRef.spelledList settings args)
  | .param name => .identifier (settings.typeParameterPrefix ++ name)
  | .array => braced "Array"

/-- Type references, each as it looks to a reader who does not know the helpers. -/
def TypeRef.spelledList (settings : Settings) : List TypeRef → List Expr
  | [] => []
  | type :: rest => type.spelled settings :: TypeRef.spelledList settings rest

end

mutual

/-- An expression as it looks to a reader who does not know the helpers. -/
def Expr.spelled (settings : Settings) : Expr → Expr
  | .self => .identifier "this"
  | .null => .identifier "null"
  | .identifier name => .identifier name
  | .typeRef type => type.spelled settings
  | .member target name => .member (target.spelled settings) name
  | .string value => .string value
  | .array items => .array (Expr.spelledList settings items)
  | .invoke callee args => .invoke (callee.spelled settings) (Expr.spelledList settings args)
  | .assign target value => .assign (target.spelled settings) (value.spelled settings)
  | .instantiateMethod method typeArgs =>
      .invoke (.identifier settings.helpers.instantiateGenericMethod)
        (method.spelled settings :: TypeRef.spelledList settings typeArgs)
  | .bind method receiver =>
      .invoke (.identifier settings.helpers.bind)
        [method.spelled settings, receiver.spelled settings]
  | .bindBaseCall ancestor name typeArgs receiver =>
      .invoke (.identifier settings.helpers.bindBaseCall)
        [ancestor.spelled settings, .string name, .array (TypeRef.spelledList settings typeArgs),
          receiver.spelled settings]
  | .bindFirstParameterToThis function =>
      .invoke (.identifier settings.helpers.bindFirstParameterToThis) [function.spelled settings]

/-- Expressions, each as it looks to a reader who does not know the helpers. -/
def Expr.spelledList (settings : Settings) : List Expr → List Expr
  | [] => []
  | expr :: rest => expr.spelled settings :: Expr.spelledList settings rest

end

variable {settings : Settings}

theorem TypeRef.spelledList_eq_map (types : List TypeRef) :
    spelledList settings types = types.map (spelled settings) := by
  induction types with
  | nil => rw [spelledList, List.map_nil]
  | cons type rest ih => rw [spelledList, ih, List.map_cons]

theorem Expr.spelledList_eq_map (exprs : List Expr) :
    spelledList settings exprs = exprs.map (spelled settings) := by
  induction exprs with
  | nil => rw [spelledList, List.map_nil]
  | cons expr rest ih => rw [spelledList, ih, List.map_cons]

/-! ## Spelling out keeps the text -/

theorem text_braced_qualified (legible : settings.Legible) (name : TypeName) :
    (braced name.qualified).text settings = typeNameText settings name := by
  rw [text_braced, typeNameText, if_pos legible.qualifies]

theorem TypeRef.map_text_spelledList {types : List TypeRef}
    (same : ∀ type ∈ types, (type.spelled settings).text settings = type.text settings) :
    (spelledList settings types).map (Expr.text settings) = types.map (text settings) := by
  rw [spelledList_eq_map, List.map_map]
  exact List.map_congr_left same

theorem Expr.map_text_spelledList {exprs : List Expr}
    (same : ∀ expr ∈ exprs, (expr.spelled settings).text settings = expr.text settings) :
    (spelledList settings exprs).map (text settings) = exprs.map (text settings) := by
  rw [spelledList_eq_map, List.map_map]
  exact List.map_congr_left same

theorem TypeRef.Legible.text_spelled {type : TypeRef} (legible : type.Legible)
    (configured : settings.Legible) :
    (type.spelled settings).text settings = type.text settings := by
  induction legible with
  | named => exact text_braced_qualified configured _
  | instantiated _ _ same =>
      rw [spelled, Expr.text, Expr.text, text, helperCall, Expr.texts_eq_map, List.map_cons,
        map_text_spelledList same, texts_eq_map, text_braced_qualified configured]
  | param => rfl
  | array => exact text_braced settings "Array"

/-- A reader who does not know the helpers sees the same text. -/
theorem Expr.Legible.text_spelled {expr : Expr} (legible : expr.Legible)
    (configured : settings.Legible) :
    (expr.spelled settings).text settings = expr.text settings := by
  induction legible with
  | self | null | identifier | string => rfl
  | named type | instantiated type => exact type.text_spelled configured
  | array _ same =>
      rw [spelled, text, text, texts_eq_map, texts_eq_map, map_text_spelledList same]
  | member _ _ same => rw [spelled, text, text, same]
  | instantiateMethod _ args same =>
      have typeArgs := TypeRef.map_text_spelledList
        fun arg isArg => (args arg isArg).text_spelled configured
      rw [spelled, text, text, text, helperCall, texts, same, texts_eq_map, typeArgs]
  | bind _ _ sameMethod sameReceiver =>
      simp only [spelled, text, texts, helperCall, sameMethod, sameReceiver]
  | bindBaseCall name ancestor args _ sameReceiver =>
      have typeArgs := TypeRef.map_text_spelledList
        fun arg isArg => (args arg isArg).text_spelled configured
      simp only [spelled, text, texts, texts_eq_map, helperCall, ancestor.text_spelled configured,
        typeArgs, sameReceiver]
  | bindFirstParameterToThis _ same => simp only [spelled, text, texts, helperCall, same]

/-! ## A tree spelled out is read back -/

theorem isPlain_helper (legible : settings.Legible) {helper : String}
    (isHelper : helper ∈ settings.helpers.all) : IsPlain helper :=
  legible.plain helper (List.mem_cons_of_mem _ isHelper)

theorem isPlain_append {first second : String} (firstPlain : IsPlain first)
    (secondPlain : IsPlain second) : IsPlain (first ++ second) := by
  refine ⟨by simp [firstPlain.1], ?_⟩
  rw [String.toList_append, List.forall_mem_append]
  exact ⟨firstPlain.2, secondPlain.2⟩

/-- The expression is one of the language itself and needs no parentheses. -/
structure Expr.Readable (expr : Expr) : Prop where
  surface : expr.Surface
  grouped : expr.Grouped

namespace Expr.Readable

theorem identifier {name : String} (plain : IsPlain name) : (Expr.identifier name).Readable :=
  ⟨.identifier plain, .identifier name⟩

theorem braced {name : String} (closed : '}' ∉ name.toList) : (braced name).Readable :=
  ⟨.braced closed, .braced name⟩

theorem string (value : String) : (Expr.string value).Readable :=
  ⟨.string value, .string value⟩

theorem array {items : List Expr} (readable : ∀ item ∈ items, item.Readable) :
    (Expr.array items).Readable :=
  ⟨.array fun item isItem => (readable item isItem).surface,
    .array fun item isItem => (readable item isItem).grouped⟩

theorem member {target : Expr} {name : String} (readable : target.Readable)
    (noAssign : target.isAssign = false) (plain : IsPlain name) :
    (Expr.member target name).Readable :=
  ⟨.member readable.surface plain, .member name readable.grouped noAssign⟩

theorem call {helper : String} {args : List Expr} (plain : IsPlain helper)
    (readable : ∀ arg ∈ args, arg.Readable) : (Expr.invoke (.identifier helper) args).Readable :=
  ⟨.invoke (.identifier plain) fun arg isArg => (readable arg isArg).surface,
    .invoke (.identifier helper) rfl fun arg isArg => (readable arg isArg).grouped⟩

end Expr.Readable

theorem TypeRef.Legible.readable_spelled {type : TypeRef} (legible : type.Legible)
    (configured : settings.Legible) : (type.spelled settings).Readable := by
  induction legible with
  | named plain => exact .braced plain.closed
  | instantiated plain _ args =>
      refine .call (isPlain_helper configured (by simp [HelperNames.all])) ?_
      rw [spelledList_eq_map, List.forall_mem_cons, List.forall_mem_map]
      exact ⟨.braced plain.closed, args⟩
  | param plain => exact .identifier (isPlain_append (configured.plain _ List.mem_cons_self) plain)
  | array => exact .braced (by decide)

theorem Expr.Legible.isAssign_spelled {expr : Expr} (legible : expr.Legible) :
    (expr.spelled settings).isAssign = false := by
  cases legible <;> rfl

theorem Expr.Legible.readable_spelled {expr : Expr} (legible : expr.Legible)
    (configured : settings.Legible) : (expr.spelled settings).Readable := by
  have helperPlain : ∀ helper ∈ settings.helpers.all, IsPlain helper :=
    fun helper isHelper => isPlain_helper configured isHelper
  induction legible with
  | self | null => exact .identifier (by decide)
  | identifier plain => exact .identifier plain
  | string value => exact .string value
  | named type | instantiated type => exact type.readable_spelled configured
  | array _ items =>
      refine .array ?_
      rw [spelledList_eq_map, List.forall_mem_map]
      exact items
  | member target plain readable => exact .member readable target.isAssign_spelled plain
  | instantiateMethod _ args method =>
      refine .call (helperPlain _ (by simp [HelperNames.all])) ?_
      rw [TypeRef.spelledList_eq_map, List.forall_mem_cons, List.forall_mem_map]
      exact ⟨method, fun arg isArg => (args arg isArg).readable_spelled configured⟩
  | bind _ _ method receiver =>
      refine .call (helperPlain _ (by simp [HelperNames.all])) ?_
      rw [List.forall_mem_cons, List.forall_mem_singleton]
      exact ⟨method, receiver⟩
  | @bindBaseCall _ name types _ ancestor args _ receiver =>
      refine .call (helperPlain _ (by simp [HelperNames.all])) ?_
      have typeArgs : (Expr.array (TypeRef.spelledList settings types)).Readable := by
        refine .array ?_
        rw [TypeRef.spelledList_eq_map, List.forall_mem_map]
        exact fun arg isArg => (args arg isArg).readable_spelled configured
      rw [List.forall_mem_cons, List.forall_mem_cons, List.forall_mem_cons,
        List.forall_mem_singleton]
      exact ⟨ancestor.readable_spelled configured, .string name, typeArgs, receiver⟩
  | bindFirstParameterToThis _ function =>
      refine .call (helperPlain _ (by simp [HelperNames.all])) ?_
      simpa only [List.forall_mem_singleton] using function

/-! ## Nothing is lost in spelling a tree out -/

/-- Lists with the same images are the same if their elements are. -/
theorem eq_of_map_eq {α β : Type} {image : α → β} : {left right : List α} →
    (∀ a ∈ left, ∀ b ∈ right, image a = image b → a = b) →
    left.map image = right.map image → left = right
  | [], [], _, _ => rfl
  | a :: left, b :: right, apart, same => by
      rw [List.map_cons, List.map_cons, List.cons.injEq] at same
      rw [apart a List.mem_cons_self b List.mem_cons_self same.1,
        eq_of_map_eq (fun a isLeft b isRight =>
          apart a (List.mem_cons_of_mem _ isLeft) b (List.mem_cons_of_mem _ isRight)) same.2]

theorem braced_inj {left right : String} (same : braced left = braced right) : left = right := by
  simpa [braced] using same

theorem braced_qualified_ne_array {name : TypeName} (plain : name.Legible)
    (noArray : name ≠ ⟨"", "Array"⟩) : braced name.qualified ≠ braced "Array" := by
  intro same
  have sameName : name.qualified = (TypeName.mk "" "Array").qualified := braced_inj same
  exact noArray (TypeName.qualified_inj (dot_not_mem_of_isPlain plain.name) (by decide) sameName)

theorem TypeRef.Legible.eq_of_spelled_eq {left right : TypeRef} (isLeft : left.Legible)
    (isRight : right.Legible) (same : left.spelled settings = right.spelled settings) :
    left = right := by
  induction isLeft generalizing right with
  | named plain noArray =>
      cases isRight with
      | named otherPlain =>
          rw [TypeName.qualified_inj (dot_not_mem_of_isPlain plain.name)
            (dot_not_mem_of_isPlain otherPlain.name) (braced_inj same)]
      | array =>
          exact absurd same (braced_qualified_ne_array plain noArray)
      | instantiated | param => simp [spelled, braced] at same
  | instantiated plain _ args =>
      cases isRight with
      | instantiated otherPlain otherArgs =>
          simp only [spelled, Expr.invoke.injEq, List.cons.injEq, true_and,
            spelledList_eq_map] at same
          rw [TypeName.qualified_inj (dot_not_mem_of_isPlain plain.name)
            (dot_not_mem_of_isPlain otherPlain.name) (braced_inj same.1),
            eq_of_map_eq (fun a isA b isB => args a isA (otherArgs b isB)) same.2]
      | named | param | array => simp [spelled, braced] at same
  | param =>
      cases isRight with
      | param =>
          simp only [spelled, Expr.identifier.injEq, String.append_right_inj] at same
          rw [same]
      | named | instantiated | array => simp [spelled, braced] at same
  | array =>
      cases isRight with
      | array => rfl
      | named otherPlain noArray =>
          exact absurd same.symm (braced_qualified_ne_array otherPlain noArray)
      | instantiated | param => simp [spelled, braced] at same

theorem TypeRef.eq_of_spelledList_eq {left right : List TypeRef}
    (isLeft : ∀ type ∈ left, type.Legible) (isRight : ∀ type ∈ right, type.Legible)
    (same : spelledList settings left = spelledList settings right) : left = right := by
  rw [spelledList_eq_map, spelledList_eq_map] at same
  exact eq_of_map_eq (fun a isA b isB => (isLeft a isA).eq_of_spelled_eq (isRight b isB)) same

theorem Expr.eq_of_spelledList_eq {left right : List Expr}
    (apart : ∀ expr ∈ left, ∀ other ∈ right,
      expr.spelled settings = other.spelled settings → expr = other)
    (same : spelledList settings left = spelledList settings right) : left = right := by
  rw [spelledList_eq_map, spelledList_eq_map] at same
  exact eq_of_map_eq apart same

/-- The form of the tree that an expression spells out, by the name that it begins with.  Each form
is given as the constructor of some expression that has it. -/
def Expr.meantForm (settings : Settings) : Expr → Nat
  | .identifier name =>
      if name = "this" then Expr.self.ctorIdx
      else if name = "null" then Expr.null.ctorIdx
      else (Expr.identifier name).ctorIdx
  | .invoke (.identifier helper) _ =>
      if helper = settings.helpers.bindFirstParameterToThis then
        (Expr.bindFirstParameterToThis .self).ctorIdx
      else if helper = settings.helpers.instantiateGenericType then (Expr.typeRef .array).ctorIdx
      else if helper = settings.helpers.instantiateGenericMethod then
        (Expr.instantiateMethod .self []).ctorIdx
      else if helper = settings.helpers.bindBaseCall then
        (Expr.bindBaseCall .array "" [] .self).ctorIdx
      else (Expr.bind .self .self).ctorIdx
  | expr => expr.ctorIdx

/-- Spelled out, an expression still shows what form it has: helper calls by the names of the
helpers, `this` and `null` by their own. -/
theorem Expr.Legible.meantForm_spelled (configured : settings.Legible) {expr : Expr}
    (legible : expr.Legible) : (expr.spelled settings).meantForm settings = expr.ctorIdx := by
  have distinct := configured.distinct
  simp only [HelperNames.all, List.nodup_cons, List.mem_cons, List.not_mem_nil, or_false,
    not_or] at distinct
  obtain ⟨bindApart, baseCallApart, methodApart, typeApart, -⟩ := distinct
  cases legible with
  | self | null | string | named | array | member => rfl
  | identifier _ noThis noNull =>
      rw [spelled, meantForm, if_neg noThis, if_neg noNull]
  | bindFirstParameterToThis => exact if_pos rfl
  | instantiated =>
      rw [spelled, TypeRef.spelled, meantForm, if_neg typeApart, if_pos rfl]
      rfl
  | instantiateMethod =>
      rw [spelled, meantForm, if_neg methodApart.2, if_neg methodApart.1, if_pos rfl]
      rfl
  | bindBaseCall =>
      obtain ⟨noMethod, noType, noThis⟩ := baseCallApart
      rw [spelled, meantForm, if_neg noThis, if_neg noType, if_neg noMethod, if_pos rfl]
      rfl
  | bind =>
      obtain ⟨noBaseCall, noMethod, noType, noThis⟩ := bindApart
      rw [spelled, meantForm, if_neg noThis, if_neg noType, if_neg noMethod, if_neg noBaseCall]
      rfl

theorem Expr.Legible.ctorIdx_eq (configured : settings.Legible) {left right : Expr}
    (isLeft : left.Legible) (isRight : right.Legible)
    (same : left.spelled settings = right.spelled settings) : left.ctorIdx = right.ctorIdx := by
  rw [← isLeft.meantForm_spelled configured, same, isRight.meantForm_spelled configured]

/-- Two expressions that look alike to a reader who does not know the helpers are the same. -/
theorem Expr.Legible.eq_of_spelled_eq (configured : settings.Legible) {left right : Expr}
    (isLeft : left.Legible) (isRight : right.Legible)
    (same : left.spelled settings = right.spelled settings) : left = right := by
  induction isLeft generalizing right with
  | self =>
      have form := Legible.self.ctorIdx_eq configured isRight same
      cases isRight with
      | self => rfl
      | _ => cases form
  | null =>
      have form := Legible.null.ctorIdx_eq configured isRight same
      cases isRight with
      | null => rfl
      | _ => cases form
  | identifier plain noThis noNull =>
      have form := (Legible.identifier plain noThis noNull).ctorIdx_eq configured isRight same
      cases isRight with
      | identifier => exact same
      | _ => cases form
  | string value =>
      have form := (Legible.string value).ctorIdx_eq configured isRight same
      cases isRight with
      | string => exact same
      | _ => cases form
  | named type =>
      have form := (Legible.named type).ctorIdx_eq configured isRight same
      cases isRight with
      | named otherType | instantiated otherType => rw [type.eq_of_spelled_eq otherType same]
      | _ => cases form
  | instantiated type =>
      have form := (Legible.instantiated type).ctorIdx_eq configured isRight same
      cases isRight with
      | named otherType | instantiated otherType => rw [type.eq_of_spelled_eq otherType same]
      | _ => cases form
  | array items apart =>
      have form := (Legible.array items).ctorIdx_eq configured isRight same
      cases isRight with
      | array otherItems =>
          refine congrArg Expr.array (eq_of_spelledList_eq ?_ (Expr.array.inj same))
          intro item isItem other isOther
          exact apart item isItem (otherItems other isOther)
      | _ => cases form
  | member target plain apart =>
      have form := (Legible.member target plain).ctorIdx_eq configured isRight same
      cases isRight with
      | member otherTarget =>
          obtain ⟨sameTarget, sameName⟩ := Expr.member.inj same
          rw [apart otherTarget sameTarget, sameName]
      | _ => cases form
  | instantiateMethod method typeArgs apart =>
      have form := (Legible.instantiateMethod method typeArgs).ctorIdx_eq configured isRight same
      cases isRight with
      | instantiateMethod otherMethod otherArgs =>
          obtain ⟨sameMethod, sameArgs⟩ := List.cons.inj (Expr.invoke.inj same).2
          rw [apart otherMethod sameMethod,
            TypeRef.eq_of_spelledList_eq typeArgs otherArgs sameArgs]
      | _ => cases form
  | bind method receiver apartMethod apartReceiver =>
      have form := (Legible.bind method receiver).ctorIdx_eq configured isRight same
      cases isRight with
      | bind otherMethod otherReceiver =>
          obtain ⟨sameMethod, sameRest⟩ := List.cons.inj (Expr.invoke.inj same).2
          rw [apartMethod otherMethod sameMethod,
            apartReceiver otherReceiver (List.cons.inj sameRest).1]
      | _ => cases form
  | bindBaseCall name ancestor typeArgs receiver apart =>
      have form :=
        (Legible.bindBaseCall name ancestor typeArgs receiver).ctorIdx_eq configured isRight same
      cases isRight with
      | bindBaseCall otherName otherAncestor otherArgs otherReceiver =>
          obtain ⟨sameAncestor, sameRest⟩ := List.cons.inj (Expr.invoke.inj same).2
          obtain ⟨sameName, sameRest⟩ := List.cons.inj sameRest
          obtain ⟨sameArgs, sameRest⟩ := List.cons.inj sameRest
          rw [ancestor.eq_of_spelled_eq otherAncestor sameAncestor, Expr.string.inj sameName,
            TypeRef.eq_of_spelledList_eq typeArgs otherArgs (Expr.array.inj sameArgs),
            apart otherReceiver (List.cons.inj sameRest).1]
      | _ => cases form
  | bindFirstParameterToThis function apart =>
      have form :=
        (Legible.bindFirstParameterToThis function).ctorIdx_eq configured isRight same
      cases isRight with
      | bindFirstParameterToThis otherFunction =>
          rw [apart otherFunction (List.cons.inj (Expr.invoke.inj same).2).1]
      | _ => cases form

/-! ## Trees are told apart -/

/-- The text of a tree of helper calls determines the tree, whatever strings are quoted in it:
trees under plain names that do not collide have one text only if they are the same. -/
theorem Expr.Legible.text_inj (configured : settings.Legible) {left right : Expr}
    (isLeft : left.Legible) (isRight : right.Legible) :
    left.text settings = right.text settings ↔ left = right := by
  have readLeft := isLeft.readable_spelled configured
  have readRight := isRight.readable_spelled configured
  constructor
  · intro same
    have sameText : (left.spelled settings).text settings =
        (right.spelled settings).text settings := by
      rw [isLeft.text_spelled configured, isRight.text_spelled configured, same]
    have sameSpelled := readLeft.grouped.eq_of_text_eq readRight.grouped readLeft.surface
      readRight.surface sameText
    exact isLeft.eq_of_spelled_eq configured isRight sameSpelled
  · rintro rfl
    rfl

/-- The standard settings, but with scopes written out. -/
def qualifying : Settings := { Settings.standard with qualifyTypeNames := true }

/-- A base call of `F` with the type argument `T`. -/
def baseCall : Expr :=
  .bindFirstParameterToThis
    (.bindBaseCall (.instantiated ⟨"N.M", "B"⟩ [.param "T", .array]) "F" [.param "T"] .self)

/-- A base call without type arguments of a member whose name looks like the rest of the text of
`baseCall`. -/
def baseCallOfText : Expr :=
  .bindFirstParameterToThis
    (.bindBaseCall (.instantiated ⟨"N.M", "B"⟩ [.param "T", .array]) "F', [$T], this))" [] .self)

/-- A quoted name does not pass for the text around it. -/
theorem text_baseCall_ne :
    qualifying.Legible ∧ baseCall.Legible ∧ baseCallOfText.Legible ∧
      baseCall.text qualifying ≠ baseCallOfText.text qualifying := by
  have configured : qualifying.Legible := ⟨rfl, by decide, by decide⟩
  have param : (TypeRef.param "T").Legible := .param (by decide)
  have ancestor : (TypeRef.instantiated ⟨"N.M", "B"⟩ [.param "T", .array]).Legible := by
    refine .instantiated ⟨⟨["N", "M"], by decide, by decide⟩, by decide⟩ ?_
    rw [List.forall_mem_cons, List.forall_mem_singleton]
    exact ⟨param, .array⟩
  have isCall : baseCall.Legible :=
    .bindFirstParameterToThis
      (.bindBaseCall _ ancestor (List.forall_mem_singleton.mpr param) .self)
  have isOther : baseCallOfText.Legible :=
    .bindFirstParameterToThis (.bindBaseCall _ ancestor (by simp) .self)
  refine ⟨configured, isCall, isOther, ?_⟩
  rw [ne_eq, Expr.Legible.text_inj configured isCall isOther]
  simp [baseCall, baseCallOfText]

end Script

end MethodGroups
