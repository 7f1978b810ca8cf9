/-!
# Named values

Values under names, in the order in which the names were first given. Setting a known
name changes its value and keeps its place, so that laying one list of entries over
another (`Entries.layer`) keeps the order of the base.
-/

namespace TemplateLint

/-- Values by name, in the order of the names. -/
abbrev Entries (α : Type) := List (String × α)

namespace Entries

variable {α : Type}

/-- The entries with the value of one name set: a known name keeps its place. -/
def set (name : String) (value : α) : Entries α → Entries α
  | [] => [(name, value)]
  | (key, old) :: rest =>
    if key == name then (key, value) :: rest else (key, old) :: set name value rest

def find? (entries : Entries α) (name : String) : Option α := entries.lookup name

def has (entries : Entries α) (name : String) : Bool := (entries.find? name).isSome

def names (entries : Entries α) : List String := entries.map Prod.fst

def layer (base added : Entries α) : Entries α :=
  added.foldl (fun entries entry => entries.set entry.1 entry.2) base

end Entries

def sortNames (names : List String) : List String := names.mergeSort fun a b => a ≤ b

end TemplateLint
