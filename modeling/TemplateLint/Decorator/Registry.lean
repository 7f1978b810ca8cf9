import TemplateLint.Json.Write
import TemplateLint.Text.Identifier

/-!
# Decorator registry

What is known about decorators by name: whether the name is available without an import
when it is used as a decorator, and whether it gives the class that carries it a base
class. A registry is read from a table of JSON values (`Registry.ofTable`); a table with
any malformed part gives no registry at all.
-/

namespace TemplateLint.Decorator

open TemplateLint.Text

/-- What is known of a decorator. -/
structure Spec where
  /-- The name needs no import where it is used as a decorator. -/
  isGlobal : Bool
  impliesBase : Bool
  inherits? : Option String
  source? : Option String
  exported? : Option String
  deriving DecidableEq, Repr

inductive TableError where
  | notAnObject (typeName : String)
  | invalidName (name : String)
  | entryNotAnObject (name : String)
  | unknownKeys (name : String) (keys : List String)
  | notText (name key : String)
  | globalNotAFlag (name : String)
  deriving DecidableEq, Repr

namespace TableError

def message : TableError → String
  | .notAnObject typeName => "decorator table must be a mapping, not " ++ typeName
  | .invalidName name => "invalid decorator name " ++ quote name
  | .entryNotAnObject name => "decorator " ++ quote name ++ ": entry must be an object"
  | .unknownKeys name keys =>
    "decorator " ++ quote name ++ ": unknown keys " ++ ", ".intercalate keys
  | .notText name key => "decorator " ++ quote name ++ ": " ++ quote key ++ " must be a string"
  | .globalNotAFlag name => "decorator " ++ quote name ++ ": 'global' must be true or false"

end TableError

def entryKeys : List String := ["inherits", "global", "module", "export"]

/-- The members of an entry; nothing and `true` stand for an entry without members. -/
def entryMembers (name : String) : Json → Except TableError (Entries Json)
  | .null => .ok []
  | .bool true => .ok []
  | .object members => .ok members
  | _ => .error (.entryNotAnObject name)

def textMember (name key : String) (members : Entries Json) : Except TableError (Option String) :=
  match members.find? key with
  | none | some .null => .ok none
  | some (.text value) => .ok (some value)
  | some _ => .error (.notText name key)

def globalMember (name : String) (members : Entries Json) : Except TableError Bool :=
  match members.find? "global" with
  | none => .ok true
  | some (.bool value) => .ok value
  | some _ => .error (.globalNotAFlag name)

/-- What the entry of a table says about a decorator. It implies a base class if it names
one, even by null. -/
def readEntry (name : String) (entry : Json) : Except TableError Spec := do
  if !isIdentifier name then throw (.invalidName name)
  let members ← entryMembers name entry
  let unknown := members.names.filter fun key => !entryKeys.contains key
  if !unknown.isEmpty then throw (.unknownKeys name (sortNames unknown))
  let inherits? ← textMember name "inherits" members
  let source? ← textMember name "module" members
  let exported? ← textMember name "export" members
  let isGlobal ← globalMember name members
  return { isGlobal, impliesBase := members.has "inherits", inherits?, source?, exported? }

structure Registry where
  specs : Entries Spec
  deriving DecidableEq, Repr

namespace Registry

def empty : Registry := ⟨[]⟩

def readEntries : Entries Json → Except TableError (Entries Spec)
  | [] => .ok []
  | (name, entry) :: rest => do
    let spec ← readEntry name entry
    let specs ← readEntries rest
    return (name, spec) :: specs

/-- Reads a decorator table. -/
def ofTable : Json → Except TableError Registry
  | .null => .ok empty
  | .object members => return ⟨← readEntries members⟩
  | table => .error (.notAnObject table.typeName)

def layer (base added : Registry) : Registry := ⟨base.specs.layer added.specs⟩

def lookup? (registry : Registry) (name : String) : Option Spec := registry.specs.find? name

def isGlobal (registry : Registry) (name : String) : Bool :=
  (registry.lookup? name).any Spec.isGlobal

def impliesBase (registry : Registry) (name : String) : Bool :=
  (registry.lookup? name).any Spec.impliesBase

def size (registry : Registry) : Nat := registry.specs.length

end Registry

end TemplateLint.Decorator
