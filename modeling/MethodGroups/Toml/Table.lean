import MethodGroups.Toml.Value

/-!
# Tables that grow line by line

Entries are added along a path of keys.  Tables that a path passes through are
opened as needed.  A key is given a value once, a table is claimed by one header,
and a dotted key adds only to tables that no header claimed.  A path that meets
an array of tables goes on in its last table.
-/

namespace MethodGroups.Toml

namespace Entries

/-- The value of a key. -/
def value? (key : String) : Entries → Option Value
  | [] => none
  | entry :: rest => if entry.1 = key then some entry.2 else value? key rest

/-- Give a key a value, in the place of the value it had. -/
def set (key : String) (value : Value) : Entries → Entries
  | [] => [(key, value)]
  | entry :: rest => if entry.1 = key then (key, value) :: rest else entry :: set key value rest

@[simp] theorem value?_set (key query : String) (value : Value) (entries : Entries) :
    value? query (set key value entries) =
      if key = query then some value else value? query entries := by
  induction entries with
  | nil => rfl
  | cons entry rest ih =>
      by_cases found : entry.1 = key
      · by_cases same : key = query <;> simp [set, value?, found, same]
      · by_cases same : key = query
        · subst same
          simp [set, value?, found, ih]
        · simp [set, value?, found, ih, same]

/-- Change the table at the end of a path.  A dotted path opens tables of its own
kind and passes through no table that was claimed. -/
def modifyAt (dotted : Bool) (path : List String) (opening : Opening)
    (change : Opening → Entries → Option Entries) (entries : Entries) : Option Entries :=
  match path with
  | [] => change opening entries
  | key :: rest =>
      match value? key entries with
      | none => do
          let opening := if dotted then Opening.dotted else .implied
          let inner ← modifyAt dotted rest opening change []
          return set key (.table opening inner) entries
      | some (.table opening inner) =>
          if opening = .braces || (dotted && !opening.isImplicit) then none
          else do
            let inner ← modifyAt dotted rest opening change inner
            return set key (.table opening inner) entries
      | some (.tables items) => do
          let last ← items.getLast?
          let last ← modifyAt dotted rest .header change last
          return set key (.tables (items.dropLast ++ [last])) entries
      | some _ => none

/-- Give the key at the end of a path a value.  The table that gets it must be
one of dotted keys if and only if the path is longer than its last key. -/
def assign (path : List String) (value : Value) (entries : Entries) : Option Entries := do
  let key ← path.getLast?
  modifyAt true path.dropLast .header
    (fun opening entries =>
      if decide (opening = .dotted) == path.dropLast.isEmpty || (value? key entries).isSome then
        none
      else some (set key value entries))
    entries

/-- Open the table at the end of a path by a header. -/
def openTable (path : List String) (entries : Entries) : Option Entries := do
  let key ← path.getLast?
  modifyAt false path.dropLast .header
    (fun _ entries =>
      match value? key entries with
      | none => some (set key (.table .header []) entries)
      | some (.table .implied inner) => some (set key (.table .header inner) entries)
      | some _ => none)
    entries

/-- Open one more table of the array at the end of a path. -/
def openArrayTable (path : List String) (entries : Entries) : Option Entries := do
  let key ← path.getLast?
  modifyAt false path.dropLast .header
    (fun _ entries =>
      match value? key entries with
      | none => some (set key (.tables [[]]) entries)
      | some (.tables items) => some (set key (.tables (items ++ [[]])) entries)
      | some _ => none)
    entries

end Entries

end MethodGroups.Toml
