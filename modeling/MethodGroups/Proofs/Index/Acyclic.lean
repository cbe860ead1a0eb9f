import MethodGroups.Proofs.Index.Steps
import Mathlib.Data.List.Count
import Mathlib.Logic.Relation

/-!
# Hierarchies without cycles

An index is acyclic when its types can be ranked so that every base ranks below the
types that derive from it.  Sending one base elsewhere leaves the types rankable exactly
if the new base does not lead back, and a new type that takes the place of another one
is reached from wherever the other one was.

Ranks also bound every walk upwards: each level has fewer types below it, so a walk
that may visit as many types as there are visits all that it can reach.
-/

namespace MethodGroups

/-- There are strictly fewer items below a lower rank, if the lower item is one of
them. -/
theorem countP_rank_lt {α : Type} (rank : α → Nat) {items : List α} {low high : α}
    (membership : low ∈ items) (below : rank low < rank high) :
    items.countP (fun item => decide (rank item < rank low)) <
      items.countP fun item => decide (rank item < rank high) := by
  obtain ⟨before, after, rfl⟩ := List.append_of_mem membership
  have mono : ∀ part : List α, part.countP (fun item => decide (rank item < rank low)) ≤
      part.countP fun item => decide (rank item < rank high) := by
    intro part
    apply List.countP_mono_left
    intro item _ lower
    simp only [decide_eq_true_eq] at lower ⊢
    omega
  have first := mono before
  have last := mono after
  simp only [List.countP_append, List.countP_cons, Nat.lt_irrefl, below, decide_true,
    decide_false, if_true]
  simp only [Bool.false_eq_true, if_false]
  omega

/-- One element leads to another by following a partial function. -/
def LeadsTo {α : Type} (next : α → Option α) : α → α → Prop :=
  Relation.ReflTransGen fun item above => next item = some above

/-- An element ranks no higher than what leads to it, even if its own image does not
count. -/
theorem rank_le_of_leadsTo {α : Type} {next : α → Option α} {target : α} {rank : α → Nat}
    (ranked : ∀ item above, item ≠ target → next item = some above → rank above < rank item)
    {item : α} (leads : LeadsTo next item target) : rank target ≤ rank item := by
  induction leads using Relation.ReflTransGen.head_induction_on with
  | refl => exact Nat.le_refl _
  | @head item above step _ ih =>
      by_cases same : item = target
      · exact Nat.le_of_eq (congrArg rank same.symm)
      · exact Nat.le_trans ih (Nat.le_of_lt (ranked item above same step))

/-- A partial function that sends one element elsewhere stays ranked exactly if this
element cannot be reached from its new image. -/
theorem exists_rank_redirect_iff {α : Type} {next redirected : α → Option α} {changed start : α}
    {rank : α → Nat} (ranked : ∀ item above, next item = some above → rank above < rank item)
    (agree : ∀ item, item ≠ changed → redirected item = next item)
    (image : redirected changed = some start) :
    (∃ newRank : α → Nat,
        ∀ item above, redirected item = some above → newRank above < newRank item) ↔
      ¬ LeadsTo next start changed := by
  classical
  constructor
  · intro holds leads
    rcases holds with ⟨newRank, newRanked⟩
    have lower := newRanked changed start image
    have higher : newRank changed ≤ newRank start := by
      apply rank_le_of_leadsTo ?_ leads
      intro item above other step
      exact newRanked item above (by rw [agree item other, step])
    omega
  · intro fresh
    -- Everything that leads to the redirected element moves above its new image.
    refine ⟨fun item => if LeadsTo next item changed then rank item + rank start + 1
      else rank item, ?_⟩
    intro item above step
    dsimp only
    by_cases same : item = changed
    · subst item
      rw [image] at step
      cases step
      have selfLeads : LeadsTo next changed changed := Relation.ReflTransGen.refl
      rw [if_neg fresh, if_pos selfLeads]
      omega
    · rw [agree item same] at step
      have lower := ranked item above step
      by_cases leads : LeadsTo next above changed
      · have itemLeads : LeadsTo next item changed := Relation.ReflTransGen.head step leads
        rw [if_pos leads, if_pos itemLeads]
        omega
      · rw [if_neg leads]
        split <;> omega

/-- Where a partial function leads once a new element takes the place of another one:
what led to the other one from below now leads to the new one. -/
theorem leadsTo_new_iff {α : Type} [DecidableEq α] {next redirected : α → Option α} {new : α}
    {replaced : Option α}
    (redirects : ∀ item, item ≠ new → redirected item =
      (next item).map fun above => if replaced = some above then new else above)
    (unused : ∀ item, next item ≠ some new) {start : α} (old : start ≠ new)
    (stays : replaced ≠ some start) :
    LeadsTo redirected start new ↔
      ∃ target, replaced = some target ∧ LeadsTo next start target := by
  constructor
  · intro leads
    induction leads using Relation.ReflTransGen.head_induction_on with
    | refl => exact (old rfl).elim
    | @head item seen step _ ih =>
        rw [redirects item old, Option.map_eq_some_iff] at step
        obtain ⟨above, step, rfl⟩ := step
        by_cases taken : replaced = some above
        · exact ⟨above, taken, Relation.ReflTransGen.single step⟩
        · rw [if_neg taken] at ih
          have aboveOld : above ≠ new := by
            intro same
            exact unused item (same ▸ step)
          obtain ⟨target, isTarget, leads⟩ := ih aboveOld taken
          exact ⟨target, isTarget, Relation.ReflTransGen.head step leads⟩
  · intro holds
    rcases holds with ⟨target, rfl, leads⟩
    induction leads using Relation.ReflTransGen.head_induction_on with
    | refl => exact (stays rfl).elim
    | @head item above step _ ih =>
        have seen := redirects item old
        rw [step, Option.map_some] at seen
        by_cases taken : some target = some above
        · rw [if_pos taken] at seen
          exact Relation.ReflTransGen.single seen
        · rw [if_neg taken] at seen
          have aboveOld : above ≠ new := by
            intro same
            exact unused item (same ▸ step)
          exact Relation.ReflTransGen.head seen (ih aboveOld taken)

namespace TypeIndex

/-- No lookup key is registered twice. -/
def DistinctKeys (index : TypeIndex) : Prop := (index.types.map TypeDef.key).Nodup

/-- The id of the base of a type. -/
def baseId? (index : TypeIndex) (id : TypeId) : Option TypeId :=
  (index.type? id).bind fun type => (index.baseDef? type).map TypeDef.id

/-- Every base ranks below the types that derive from it. -/
def Ranked (index : TypeIndex) (rank : TypeId → Nat) : Prop :=
  ∀ id above, index.baseId? id = some above → rank above < rank id

/-- The types can be ranked, so that no type is its own ancestor. -/
def Acyclic (index : TypeIndex) : Prop := ∃ rank, index.Ranked rank

theorem mem_of_baseDef? {index : TypeIndex} {type base : TypeDef}
    (isBase : index.baseDef? type = some base) : base ∈ index.types := by
  obtain ⟨_, -, found⟩ := Option.bind_eq_some_iff.mp isBase
  exact mem_of_defOf? found

theorem Consistent.baseId?_eq {index : TypeIndex} (consistent : index.Consistent)
    {type : TypeDef} (known : type ∈ index.types) :
    index.baseId? type.id = (index.baseDef? type).map TypeDef.id := by
  rw [baseId?, consistent.type?_id known]
  rfl

theorem Ranked.base_lt {index : TypeIndex} {rank : TypeId → Nat} (ranked : index.Ranked rank)
    (consistent : index.Consistent) {type base : TypeDef} (known : type ∈ index.types)
    (isBase : index.baseDef? type = some base) : rank base.id < rank type.id := by
  apply ranked
  rw [consistent.baseId?_eq known, isBase]
  rfl

/-- The number of types that rank below a type. -/
def countBelow (index : TypeIndex) (rank : TypeId → Nat) (type : TypeDef) : Nat :=
  index.types.countP fun other => decide (rank other.id < rank type.id)

theorem countBelow_lt {index : TypeIndex} {rank : TypeId → Nat} {low high : TypeDef}
    (known : low ∈ index.types) (below : rank low.id < rank high.id) :
    index.countBelow rank low < index.countBelow rank high :=
  countP_rank_lt (fun type : TypeDef => rank type.id) known below

theorem countBelow_lt_length {index : TypeIndex} (rank : TypeId → Nat) {type : TypeDef}
    (known : type ∈ index.types) : index.countBelow rank type < index.types.length :=
  List.countP_lt_length_iff.mpr ⟨type, known, by simp⟩

/-! ## The walk of the cycle check -/

section Walk

variable {index : TypeIndex} {rank : TypeId → Nat}
variable (consistent : index.Consistent) (ranked : index.Ranked rank)

include consistent ranked

/-- A walk that may visit more types than rank below its start ends by itself. -/
theorem baseChain_succ {count : Nat} {type : TypeDef} (known : type ∈ index.types)
    (enough : index.countBelow rank type < count) :
    index.baseChain (count + 1) type = index.baseChain count type := by
  induction count generalizing type with
  | zero => exact (Nat.not_lt_zero _ enough).elim
  | succ count ih =>
      rw [baseChain, baseChain]
      cases isBase : index.baseDef? type with
      | none => rfl
      | some base =>
          have lower := ranked.base_lt consistent known isBase
          have baseKnown := mem_of_baseDef? isBase
          have fewer := countBelow_lt baseKnown lower
          simp only
          rw [ih baseKnown (by omega)]

/-- As many steps as there are types take the walk to its end. -/
theorem baseChain_eq {type : TypeDef} (known : type ∈ index.types) :
    index.baseChain index.types.length type =
      type :: match index.baseDef? type with
        | some base => index.baseChain index.types.length base
        | none => [] :=
  (baseChain_succ consistent ranked known (countBelow_lt_length rank known)).symm

/-- The walk of the cycle check meets exactly what its start leads to. -/
theorem mem_baseChain_iff {type : TypeDef} (known : type ∈ index.types) {target : TypeId} :
    target ∈ (index.baseChain index.types.length type).map TypeDef.id ↔
      LeadsTo index.baseId? type.id target := by
  constructor
  · intro met
    generalize index.types.length = count at met
    induction count generalizing type with
    | zero => cases met
    | succ count ih =>
        rw [baseChain, List.map_cons, List.mem_cons] at met
        rcases met with rfl | later
        · exact Relation.ReflTransGen.refl
        · cases isBase : index.baseDef? type with
          | none => simp [isBase] at later
          | some base =>
              simp only [isBase] at later
              apply Relation.ReflTransGen.head ?_ (ih (mem_of_baseDef? isBase) later)
              rw [consistent.baseId?_eq known, isBase]
              rfl
  · intro leads
    generalize start : type.id = id at leads
    induction leads using Relation.ReflTransGen.head_induction_on generalizing type with
    | refl =>
        rw [baseChain_eq consistent ranked known, start.symm]
        exact List.mem_cons_self
    | head step _ ih =>
        subst start
        rw [consistent.baseId?_eq known, Option.map_eq_some_iff] at step
        obtain ⟨base, isBase, baseIds⟩ := step
        rw [baseChain_eq consistent ranked known, isBase]
        exact List.mem_cons_of_mem _ (ih (mem_of_baseDef? isBase) baseIds)

/-- The walk of the cycle check ends at a type without a base. -/
theorem exists_last_baseChain {type : TypeDef} (known : type ∈ index.types) :
    ∃ last, (index.baseChain index.types.length type).getLast? = some last ∧
      index.baseDef? last = none := by
  generalize height : index.countBelow rank type = count
  induction count using Nat.strongRecOn generalizing type with
  | _ count ih =>
      rw [baseChain_eq consistent ranked known]
      cases isBase : index.baseDef? type with
      | none => exact ⟨type, rfl, isBase⟩
      | some base =>
          have baseKnown := mem_of_baseDef? isBase
          have fewer := countBelow_lt baseKnown (ranked.base_lt consistent known isBase)
          obtain ⟨last, isLast, ends⟩ := ih _ (height ▸ fewer) baseKnown rfl
          refine ⟨last, ?_, ends⟩
          rw [List.getLast?_cons, isLast]
          rfl

end Walk

end TypeIndex

end MethodGroups
