import TemplateLint.Entries

/-!
# JSON values

Objects keep their members in the order in which they were first named, and
integers and doubles are told apart. `Json.get?` looks a member up.
-/

namespace TemplateLint

/-- A JSON value; integers and floats are kept apart. -/
inductive Json where
  | null
  | bool (value : Bool)
  | int (value : Int)
  | float (value : Float)
  | text (value : String)
  | list (items : List Json)
  | object (members : List (String × Json))

namespace Json

instance : Inhabited Json := ⟨.null⟩

def get? (name : String) : Json → Option Json
  | .object members => Entries.find? members name
  | _ => none

def isTruthy : Json → Bool
  | .null => false
  | .bool value => value
  | .int value => value != 0
  | .float value => value != 0.0
  | .text value => !value.isEmpty
  | .list items => !items.isEmpty
  | .object members => !members.isEmpty

def typeName : Json → String
  | .null => "NoneType"
  | .bool _ => "bool"
  | .int _ => "int"
  | .float _ => "float"
  | .text _ => "str"
  | .list _ => "list"
  | .object _ => "dict"

end Json

end TemplateLint
