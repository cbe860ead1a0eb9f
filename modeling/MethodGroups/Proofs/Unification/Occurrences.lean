import MethodGroups.Proofs.Unification.Solutions
import Mathlib.Data.List.Nodup
import Mathlib.Logic.Relation

/-!
# The search for a variable

The search for a variable in a type looks at all variables that can be reached along the
entries of a context: from a variable to those of the type that replaces it.  One pass
over the entries, oldest first, meets all of them, because an entry only mentions
variables that were entered later.  So the search does what a search along the bindings
would do: it stops at the class of the variable, goes on behind a bound root, and ends at
an open one.
-/

namespace MethodGroups.Context

open Relation (ReflTransGen)

variable {context : Context}

/-- The variables for which there is an entry, newest first. -/
def entered (context : Context) : List TyVar := context.bindings.map Prod.fst

/-- An entry replaces the first variable by a type in which the second one occurs. -/
def Mentions (context : Context) (v w : TyVar) : Prop :=
  ∃ ty, (v, ty) ∈ context.bindings ∧ w ∈ ty.vars

@[simp] theorem entered_bind (context : Context) (v : TyVar) (ty : Ty) :
    (context.bind v ty).entered = v :: context.entered := rfl

theorem mem_entered_of_entry {v : TyVar} {ty : Ty} (entry : (v, ty) ∈ context.bindings) :
    v ∈ context.entered := List.mem_map.mpr ⟨(v, ty), entry, rfl⟩

theorem exists_entry {v : TyVar} (entered : v ∈ context.entered) :
    ∃ ty, (v, ty) ∈ context.bindings := by
  obtain ⟨⟨_, ty⟩, entry, rfl⟩ := List.mem_map.mp entered
  exact ⟨ty, entry⟩

theorem mentions_bind {v w changed : TyVar} {image : Ty} :
    (context.bind changed image).Mentions v w ↔
      (v = changed ∧ w ∈ image.vars) ∨ context.Mentions v w := by
  constructor
  · intro mentions
    obtain ⟨ty, entry, occurs⟩ := mentions
    rcases List.mem_cons.mp entry with same | older
    · cases same
      exact .inl ⟨rfl, occurs⟩
    · exact .inr ⟨ty, older, occurs⟩
  · intro holds
    rcases holds with ⟨rfl, occurs⟩ | ⟨ty, older, occurs⟩
    · exact ⟨image, List.mem_cons_self, occurs⟩
    · exact ⟨ty, List.mem_cons_of_mem _ older, occurs⟩

/-- Nothing is reached behind the variables of a new entry, so what is reached is what
was reached before, and these variables if the new entry was. -/
theorem reaches_bind {changed : TyVar} {image : Ty}
    (proper : ∀ w ∈ image.vars, w ≠ changed ∧ context.IsOpen w) {v w : TyVar} :
    ReflTransGen (context.bind changed image).Mentions v w ↔
      ReflTransGen context.Mentions v w ∨
        ReflTransGen context.Mentions v changed ∧ w ∈ image.vars := by
  constructor
  · intro reaches
    induction reaches with
    | refl => exact .inl .refl
    | @tail middle last _ mentions ih =>
        rcases mentions_bind.mp mentions with ⟨rfl, occurs⟩ | older
        · rcases ih with reached | ⟨reached, isNew⟩
          · exact .inr ⟨reached, occurs⟩
          · exact ((proper _ isNew).1 rfl).elim
        · rcases ih with reached | ⟨reached, isNew⟩
          · exact .inl (reached.tail older)
          · obtain ⟨ty, entry, -⟩ := older
            exact ((proper _ isNew).2.2 (mem_entered_of_entry entry)).elim
  · intro holds
    have kept : ∀ {u}, ReflTransGen context.Mentions v u →
        ReflTransGen (context.bind changed image).Mentions v u :=
      fun reached => reached.lift id fun _ _ older => mentions_bind.mpr (.inr older)
    rcases holds with reached | ⟨reached, occurs⟩
    · exact kept reached
    · exact (kept reached).tail (mentions_bind.mpr (.inl ⟨rfl, occurs⟩))

namespace Triangular

theorem nodup_entered (triangular : context.Triangular) : context.entered.Nodup := by
  induction triangular with
  | unbound ranks => exact List.nodup_nil
  | bind triangular isOpen proper ih => exact List.nodup_cons.mpr ⟨isOpen.2, ih⟩

/-- A variable is entered once. -/
theorem eq_of_entries (triangular : context.Triangular) {v : TyVar} {ty other : Ty}
    (entry : (v, ty) ∈ context.bindings) (otherEntry : (v, other) ∈ context.bindings) :
    ty = other :=
  congrArg Prod.snd
    (List.inj_on_of_nodup_map triangular.nodup_entered entry otherEntry rfl)

/-- One pass over the entries meets all that can be reached. -/
theorem mem_reachable (triangular : context.Triangular) {starts : List TyVar} {w : TyVar} :
    w ∈ context.reachable starts ↔ ∃ v ∈ starts, ReflTransGen context.Mentions v w := by
  induction triangular generalizing w with
  | unbound ranks =>
      have nothing : ∀ v, ReflTransGen (Context.mk ranks []).Mentions v w ↔ v = w := by
        intro v
        constructor
        · intro reaches
          cases reaches with
          | refl => rfl
          | tail _ mentions =>
              obtain ⟨ty, entry, -⟩ := mentions
              cases entry
        · rintro rfl
          exact .refl
      simp [reachable, nothing]
  | @bind context changed image triangular isOpen proper ih =>
      have step : (context.bind changed image).reachable starts =
          if changed ∈ context.reachable starts then
            context.reachable starts ++ image.vars
          else context.reachable starts := rfl
      simp only [reaches_bind proper, step]
      constructor
      · intro met
        split at met
        · next reached =>
          rcases List.mem_append.mp met with older | occurs
          · obtain ⟨v, isStart, reaches⟩ := ih.mp older
            exact ⟨v, isStart, .inl reaches⟩
          · obtain ⟨v, isStart, reaches⟩ := ih.mp reached
            exact ⟨v, isStart, .inr ⟨reaches, occurs⟩⟩
        · obtain ⟨v, isStart, reaches⟩ := ih.mp met
          exact ⟨v, isStart, .inl reaches⟩
      · intro holds
        rcases holds with ⟨v, isStart, reaches | ⟨reaches, occurs⟩⟩
        · have older := ih.mpr ⟨v, isStart, reaches⟩
          split
          · exact List.mem_append_left _ older
          · exact older
        · rw [if_pos (ih.mpr ⟨v, isStart, reaches⟩)]
          exact List.mem_append_right _ occurs

/-! ## Reaching a root -/

/-- The links of a variable lead to its root. -/
theorem reaches_root (triangular : context.Triangular) (v : TyVar) :
    ReflTransGen context.Mentions v (context.root v) := by
  induction triangular with
  | unbound ranks => exact .refl
  | @bind context changed image triangular isOpen proper ih =>
      rw [reaches_bind proper, root_bind]
      by_cases start : context.root v = changed
      · by_cases isLink : ∃ target, image = .var target
        · obtain ⟨target, rfl⟩ := isLink
          rw [root.follow, if_pos start]
          exact .inr ⟨start ▸ ih, by simp [Ty.vars]⟩
        · rw [follow_of_not_link fun target equal => isLink ⟨target, equal⟩]
          exact .inl ih
      · rw [follow_of_ne start]
        exact .inl ih

/-- A root that is reached from a variable is reached from the root of the variable. -/
theorem root_reaches (triangular : context.Triangular) {v r : TyVar}
    (isRoot : context.root r = r) (reaches : ReflTransGen context.Mentions v r) :
    ReflTransGen context.Mentions (context.root v) r := by
  induction reaches using ReflTransGen.head_induction_on with
  | refl => rw [isRoot]
  | @head v next mentions later ih =>
      obtain ⟨ty, entry, occurs⟩ := mentions
      by_cases isLink : ∃ target, ty = .var target
      · obtain ⟨target, rfl⟩ := isLink
        cases List.mem_singleton.mp occurs
        rw [triangular.root_eq_of_link entry]
        exact ih
      · rw [triangular.root_eq_of_bound entry fun target equal => isLink ⟨target, equal⟩]
        exact .head ⟨ty, entry, occurs⟩ later

/-- Behind a bound root lies what its type leads to. -/
theorem reaches_root_iff (triangular : context.Triangular) {v r : TyVar} {ty : Ty}
    (isRoot : context.root r = r) (other : context.root v ≠ r)
    (entry : (context.root v, ty) ∈ context.bindings) :
    ReflTransGen context.Mentions v r ↔
      ∃ w ∈ ty.vars, ReflTransGen context.Mentions w r := by
  constructor
  · intro reaches
    rcases (triangular.root_reaches isRoot reaches).cases_head with same | ⟨w, mentions, later⟩
    · exact (other same).elim
    · obtain ⟨image, imageEntry, occurs⟩ := mentions
      cases triangular.eq_of_entries entry imageEntry
      exact ⟨w, occurs, later⟩
  · intro holds
    rcases holds with ⟨w, occurs, later⟩
    exact (triangular.reaches_root v).trans (.head ⟨ty, entry, occurs⟩ later)

/-- Nothing lies behind an open root. -/
theorem not_reaches_of_open (triangular : context.Triangular) {v r : TyVar}
    (isRoot : context.root r = r) (other : context.root v ≠ r)
    (isOpen : context.root v ∉ context.entered) : ¬ ReflTransGen context.Mentions v r := by
  intro reaches
  rcases (triangular.root_reaches isRoot reaches).cases_head with same | ⟨w, mentions, -⟩
  · exact other same
  · obtain ⟨ty, entry, -⟩ := mentions
    exact isOpen (mem_entered_of_entry entry)

theorem root_root (triangular : context.Triangular) (v : TyVar) :
    context.root (context.root v) = context.root v := by
  induction triangular with
  | unbound ranks => rfl
  | @bind context changed image triangular isOpen proper ih =>
      have bound := triangular.bind isOpen proper
      rw [root_bind context changed v]
      by_cases start : context.root v = changed
      · by_cases isLink : ∃ target, image = .var target
        · obtain ⟨target, rfl⟩ := isLink
          obtain ⟨differ, targetOpen⟩ := proper target (by simp [Ty.vars])
          rw [root.follow, if_pos start, root_bind, root_of_not_mem targetOpen.2,
            follow_of_ne differ]
        · have proper : ∀ target, image ≠ .var target :=
            fun target equal => isLink ⟨target, equal⟩
          rw [follow_of_not_link proper, root_bind, ih, follow_of_not_link proper]
      · rw [follow_of_ne start, root_bind, ih, follow_of_ne start]

end Triangular

/-! ## The answers of the search -/

section Answers

variable {Refusal : Type} {v : TyVar} (known : v < context.size)

include known

/-- The search in a known type always has an answer, which tells whether some variable of
the type leads to the root of the variable that is searched for. -/
theorem occurs_eq_ok_iff (triangular : context.Triangular) {ty : Ty}
    (knows : context.Knows ty) {found : Bool} :
    (context.occurs v ty : Outcome Refusal Bool) = .ok found ↔
      (found = true ↔ ∃ w ∈ ty.vars, ReflTransGen context.Mentions w (context.root v)) := by
  have search : ∀ candidates : List TyVar, (∀ w ∈ candidates, w < context.size) → ∀ found,
      (occurs.search context v candidates : Outcome Refusal Bool) = .ok found ↔
        (found = true ↔
          ∃ w ∈ candidates, ReflTransGen context.Mentions w (context.root v)) := by
    intro candidates
    induction candidates with
    | nil =>
        intro _ found
        cases found <;> simp [occurs.search]
    | cons w rest ih =>
        intro bounds found
        obtain ⟨bound, restBounds⟩ := List.forall_mem_cons.mp bounds
        have reached : context.root v ∈ context.reachable [w] ↔
            ReflTransGen context.Mentions w (context.root v) := by
          simp [triangular.mem_reachable]
        rw [occurs.search, if_neg (Nat.not_le_of_lt bound), if_neg (Nat.not_le_of_lt known)]
        by_cases here : context.root v ∈ context.reachable [w]
        · rw [if_pos here]
          cases found <;> simp [reached.mp here]
        · rw [if_neg here, ih restBounds]
          simp [mt reached.mpr here]
  exact search ty.vars knows found

theorem exists_occurs_eq_ok (triangular : context.Triangular) {ty : Ty}
    (knows : context.Knows ty) :
    ∃ found, (context.occurs v ty : Outcome Refusal Bool) = .ok found := by
  classical
  refine ⟨decide (∃ w ∈ ty.vars, ReflTransGen context.Mentions w (context.root v)), ?_⟩
  rw [occurs_eq_ok_iff known triangular knows]
  exact decide_eq_true_iff

/-- Searches for which the same variables lead to the root have the same answer. -/
theorem occurs_congr (triangular : context.Triangular) {ty other : Ty}
    (knows : context.Knows ty) (knowsOther : context.Knows other)
    (same : (∃ w ∈ ty.vars, ReflTransGen context.Mentions w (context.root v)) ↔
      ∃ w ∈ other.vars, ReflTransGen context.Mentions w (context.root v)) :
    (context.occurs v ty : Outcome Refusal Bool) = context.occurs v other := by
  obtain ⟨found, answer⟩ : ∃ found, (context.occurs v ty : Outcome Refusal Bool) = .ok found :=
    exists_occurs_eq_ok known triangular knows
  rw [answer]
  rw [occurs_eq_ok_iff known triangular knows, same] at answer
  exact ((occurs_eq_ok_iff known triangular knowsOther).mpr answer).symm

end Answers

end MethodGroups.Context
