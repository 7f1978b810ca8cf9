import TemplateLint.Json.Value
import TemplateLint.Number.Shortest
import TemplateLint.Text.Quoted

/-!
# Writing JSON, and showing values in messages

`Json.render` writes a value on one line in ASCII: a character outside ASCII is
written by its UTF-16 units. `Json.inspect` is the notation that messages use for a
value, with quoted texts.
-/

namespace TemplateLint.Json

open TemplateLint.Number TemplateLint.Text

/-! ## One-line JSON -/

def unitEscape (unit : Nat) : String := "\\u" ++ hexDigits 4 unit

def escapeChar (c : Char) : String :=
  match c with
  | '"' => "\\\""
  | '\\' => "\\\\"
  | '\n' => "\\n"
  | '\r' => "\\r"
  | '\t' => "\\t"
  | c =>
    let n := c.toNat
    if n = 8 then "\\b"
    else if n = 12 then "\\f"
    else if 0x20 ≤ n && n < 0x7f then c.toString
    else if n < 0x10000 then unitEscape n
    else unitEscape (0xd800 + (n - 0x10000) / 0x400) ++ unitEscape (0xdc00 + (n - 0x10000) % 0x400)

def renderText (value : String) : String :=
  "\"" ++ String.join (value.toList.map escapeChar) ++ "\""

def renderFloat (value : Float) : String :=
  match Parts.ofBits value.toBits with
  | .nan => "NaN"
  | .infinite negative => if negative then "-Infinity" else "Infinity"
  | _ => floatText value

mutual

/-- A value as JSON text. -/
def render : Json → String
  | .null => "null"
  | .bool value => if value then "true" else "false"
  | .int value => toString value
  | .float value => renderFloat value
  | .text value => renderText value
  | .list items => "[" ++ ", ".intercalate (renderItems items) ++ "]"
  | .object members => "\x7b" ++ ", ".intercalate (renderMembers members) ++ "\x7d"

def renderItems : List Json → List String
  | [] => []
  | item :: rest => item.render :: renderItems rest

def renderMembers : List (String × Json) → List String
  | [] => []
  | (name, value) :: rest => (renderText name ++ ": " ++ value.render) :: renderMembers rest

end

/-! ## Values in messages -/

mutual

def inspect : Json → String
  | .null => "None"
  | .bool value => if value then "True" else "False"
  | .int value => toString value
  | .float value => floatText value
  | .text value => quote value
  | .list items => "[" ++ ", ".intercalate (inspectItems items) ++ "]"
  | .object members => "\x7b" ++ ", ".intercalate (inspectMembers members) ++ "\x7d"

def inspectItems : List Json → List String
  | [] => []
  | item :: rest => item.inspect :: inspectItems rest

def inspectMembers : List (String × Json) → List String
  | [] => []
  | (name, value) :: rest => (quote name ++ ": " ++ value.inspect) :: inspectMembers rest

end

def plainText : Json → String
  | .text value => value
  | value => value.inspect

end TemplateLint.Json
