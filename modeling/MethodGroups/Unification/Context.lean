import MethodGroups.Outcome
import MethodGroups.Ty.Variables

/-!
# Inference contexts

A context holds the inference variables created so far and what unification
learned about them.  Variables known to be equal form a class with one *root*;
the other members are linked to it, directly or through each other, and the root
may be bound to a type.  Links and bindings are kept in one list, newest first,
in triangular form: a variable is entered while it is still an open root, and
never again, so the entries can be applied one after the other, oldest first.

Each variable has a rank.  Of two roots the one of lower rank is linked to the
other, which keeps chains of links short and decides which member of a class is
shown.
-/

namespace MethodGroups

/-- Variables with what is known about them. -/
structure Context where
  /-- The rank of each variable created so far, in order of creation. -/
  ranks : List Nat
  /-- Variables with the type that replaces them, newest first.  A variable as
  the type is a link to another member of the same class. -/
  bindings : List (TyVar × Ty)
  deriving Repr

namespace Context

/-- The context in which no variable was created yet. -/
def empty : Context := ⟨[], []⟩

/-- The number of variables created so far. -/
def size (context : Context) : Nat := context.ranks.length

/-- Create one more variable, unbound and of rank zero. -/
def fresh (context : Context) : TyVar × Context :=
  (context.size, { context with ranks := context.ranks ++ [0] })

/-- A context of a given number of unbound variables. -/
def ofSize (count : Nat) : Context := ⟨List.replicate count 0, []⟩

/-- The rank of a variable. -/
def rank (context : Context) (v : TyVar) : Nat := context.ranks.getD v 0

/-- Replace bound variables by their types, as deep as they go, and linked
variables by their roots. -/
def resolve (context : Context) (ty : Ty) : Ty :=
  context.bindings.foldr (fun binding resolved => resolved.replace binding.1 binding.2) ty

/-- The root of the class of a variable. -/
def root (context : Context) (v : TyVar) : TyVar :=
  context.bindings.foldr follow v
where
  /-- Follow one link, if it starts at the variable reached so far. -/
  follow : TyVar × Ty → TyVar → TyVar
    | (linked, .var target), reached => if reached = linked then target else reached
    | _, reached => reached

/-- All variables met when the given ones are followed through links and into
the types they are bound to, the given ones included. -/
def reachable (context : Context) (starts : List TyVar) : List TyVar :=
  context.bindings.foldr
    (fun binding met => if binding.1 ∈ met then met ++ binding.2.vars else met) starts

/-- The first variable of a type, from left to right, that the context did not
create. -/
def stray? (context : Context) (ty : Ty) : Option TyVar :=
  ty.vars.find? fun v => context.size ≤ v

/-- A value that is defined once all variables of a type are known. -/
def guarded {Refusal Value : Type} (context : Context) (ty : Ty) (value : Value) :
    Outcome Refusal Value :=
  match context.stray? ty with
  | some v => .stray v
  | none => .ok value

/-- Whether the class of a variable lies in a type, or behind the variables of the type.  The
variables are tried from left to right, and the first success ends the search. -/
def occurs {Refusal : Type} (context : Context) (v : TyVar) (ty : Ty) : Outcome Refusal Bool :=
  search ty.vars
where
  /-- Try the variables of a list in order. -/
  search : List TyVar → Outcome Refusal Bool
    | [] => .ok false
    | w :: rest =>
        if context.size ≤ w then .stray w
        else if context.size ≤ v then .stray v
        else if context.root v ∈ context.reachable [w] then .ok true
        else search rest

/-- A variable is open while nothing is known about it: it is the root of its
class and has no type. -/
def IsOpen (context : Context) (v : TyVar) : Prop :=
  v < context.size ∧ v ∉ context.bindings.map Prod.fst

instance (context : Context) (v : TyVar) : Decidable (context.IsOpen v) :=
  inferInstanceAs (Decidable (_ ∧ _))

/-- Replace an open variable by a type from now on. -/
def bind (context : Context) (v : TyVar) (ty : Ty) : Context :=
  { context with bindings := (v, ty) :: context.bindings }

/-- Link one open variable to another, which becomes the root of both classes.
Between equals, the root gains a rank. -/
def link (context : Context) (child parent : TyVar) : Context :=
  let ranks :=
    if context.rank child = context.rank parent then
      context.ranks.modify parent (· + 1)
    else context.ranks
  { ranks, bindings := (child, .var parent) :: context.bindings }

/-- Which of two roots is linked to which: the one of lower rank to the other,
the left one to the right one between equals. -/
def orient (context : Context) (left right : TyVar) : TyVar × TyVar :=
  if context.rank right < context.rank left then (right, left) else (left, right)

/-- The number of variables about which nothing is known. -/
def openCount (context : Context) : Nat :=
  ((List.range context.size).filter fun v => context.IsOpen v).length

@[simp] theorem resolve_ofSize (count : Nat) (ty : Ty) : (ofSize count).resolve ty = ty := rfl

@[simp] theorem resolve_bind (context : Context) (v : TyVar) (image ty : Ty) :
    (context.bind v image).resolve ty = (context.resolve ty).replace v image := rfl

@[simp] theorem resolve_link (context : Context) (child parent : TyVar) (ty : Ty) :
    (context.link child parent).resolve ty =
      (context.resolve ty).replace child (.var parent) := rfl

@[simp] theorem size_bind (context : Context) (v : TyVar) (ty : Ty) :
    (context.bind v ty).size = context.size := rfl

@[simp] theorem size_link (context : Context) (child parent : TyVar) :
    (context.link child parent).size = context.size := by
  simp only [link, size]
  split <;> simp

/-- An entry closes the variable that it is for, and no other one. -/
theorem isOpen_iff_of_entry {before after : Context} {v w : TyVar}
    (sizes : after.size = before.size)
    (entry : after.bindings.map Prod.fst = v :: before.bindings.map Prod.fst) :
    after.IsOpen w ↔ w ≠ v ∧ before.IsOpen w := by
  rw [IsOpen, IsOpen, sizes, entry, List.mem_cons, not_or]
  exact and_left_comm

theorem isOpen_bind {context : Context} {v w : TyVar} {ty : Ty} :
    (context.bind v ty).IsOpen w ↔ w ≠ v ∧ context.IsOpen w :=
  isOpen_iff_of_entry (size_bind context v ty) rfl

theorem isOpen_link {context : Context} {child parent w : TyVar} :
    (context.link child parent).IsOpen w ↔ w ≠ child ∧ context.IsOpen w :=
  isOpen_iff_of_entry (size_link context child parent) rfl

/-- Learning something about an open variable leaves fewer of them. -/
theorem openCount_lt {before after : Context} {v : TyVar}
    (sizes : after.size = before.size)
    (openness : ∀ w, after.IsOpen w ↔ w ≠ v ∧ before.IsOpen w)
    (wasOpen : before.IsOpen v) : after.openCount < before.openCount := by
  have split : (List.range after.size).filter (fun w => after.IsOpen w) =
      ((List.range before.size).filter (fun w => before.IsOpen w)).filter (fun w => w ≠ v) := by
    rw [List.filter_filter, sizes]
    apply List.filter_congr
    intro w _
    simp [openness]
  rw [openCount, split]
  apply List.length_filter_lt_length_iff_exists.mpr
  exact ⟨v, by simp [wasOpen.1, wasOpen], by simp⟩

theorem openCount_bind_lt {context : Context} {v : TyVar} (ty : Ty)
    (wasOpen : context.IsOpen v) : (context.bind v ty).openCount < context.openCount :=
  openCount_lt (size_bind ..) (fun _ => isOpen_bind) wasOpen

theorem openCount_link_lt {context : Context} {child : TyVar} (parent : TyVar)
    (wasOpen : context.IsOpen child) :
    (context.link child parent).openCount < context.openCount :=
  openCount_lt (size_link ..) (fun _ => isOpen_link) wasOpen

end Context

end MethodGroups
