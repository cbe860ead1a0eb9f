import MethodGroups.Policy.Basic
import MethodGroups.Settings.Basic

/-!
# Policy tables

A table fixes the policy of every method and every delegate of one index.  An
override of a single id takes precedence over a rule, and a rule over the default.
A rule for methods may start from the default policy, which it is given.

The table answers for the index it was made from, also after that index has
grown: a method that it does not know is not usable, and a delegate that it does
not know is plain.
-/

namespace MethodGroups

/-- What decides the policies of a table, defaults apart. -/
structure PolicyRules where
  /-- The policy of a method, made from its default policy. -/
  method : TypeIndex → MethodDef → MethodPolicy → MethodPolicy
  /-- The policy of a delegate. -/
  delegate : TypeDef → DelegatePolicy
  /-- Overrides of single methods; of several for one id the last one counts. -/
  methodOverrides : List (MethodId × MethodPolicy)
  /-- Overrides of single delegates; of several for one id the last one counts. -/
  delegateOverrides : List (TypeId × DelegatePolicy)

/-- Rules that leave every policy at its default. -/
def PolicyRules.none : PolicyRules :=
  ⟨fun _ _ policy => policy, fun _ => .plain, [], []⟩

/-- The policy entered last for an id. -/
def latest? {Id Policy : Type} [DecidableEq Id] (entries : List (Id × Policy)) (id : Id) :
    Option Policy :=
  (entries.reverse.find? fun entry => entry.1 = id).map Prod.snd

/-- The policies of definitions, given in order with what the rules say of them.  An override
replaces what the rules say, and is used up by the first definition with its id. -/
def applyOverrides {Id Policy : Type} [DecidableEq Id] (overrides : List (Id × Policy)) :
    List (Id × Policy) → List (Id × Policy)
  | [] => []
  | (id, ruled) :: rest =>
      (id, (latest? overrides id).getD ruled) ::
        applyOverrides (overrides.filter fun entry => entry.1 ≠ id) rest

/-- The policies of all methods and delegates of an index. -/
structure PolicyTable where
  methods : List (MethodId × MethodPolicy)
  delegates : List (TypeId × DelegatePolicy)
  deriving DecidableEq, Repr, Inhabited

namespace PolicyTable

/-- The policy of a method without a rule: its name behind the configured prefix,
static if the method is. -/
def defaultMethod (settings : Settings) (method : MethodDef) : MethodPolicy :=
  .normal (settings.methodPrefix ++ method.name) method.isStatic

/-- The table of an index. -/
def build (index : TypeIndex) (settings : Settings) (rules : PolicyRules) : PolicyTable where
  methods := applyOverrides rules.methodOverrides <| index.methods.map fun method =>
    (method.id, rules.method index method (defaultMethod settings method))
  delegates := applyOverrides rules.delegateOverrides <|
    (index.types.filter TypeDef.isDelegate).map fun type => (type.id, rules.delegate type)

/-- The lookups of a table. -/
def policies (table : PolicyTable) : Policies where
  method id := (latest? table.methods id).getD .notUsable
  delegate id := (latest? table.delegates id).getD .plain

end PolicyTable

end MethodGroups
