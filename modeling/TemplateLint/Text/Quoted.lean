import TemplateLint.Text.Digit
import TemplateLint.Text.Printable

/-!
# Quoted texts in messages

A message shows a name or an excerpt between single quotes, or between double
quotes when the text holds a single quote and no double quote. Backslashes, the
chosen quote and characters that are not printable are escaped (`quote`).
-/

namespace TemplateLint.Text

def quoteMark (text : List Char) : Char :=
  if text.contains '\'' && !text.contains '"' then '"' else '\''

def quoteChar (mark c : Char) : String :=
  if c == mark || c == '\\' then String.ofList ['\\', c]
  else if c == '\t' then "\\t"
  else if c == '\n' then "\\n"
  else if c == '\r' then "\\r"
  else if isPrintable c then c.toString
  else if c.toNat < 0x100 then "\\x" ++ hexDigits 2 c.toNat
  else if c.toNat < 0x10000 then "\\u" ++ hexDigits 4 c.toNat
  else "\\U" ++ hexDigits 8 c.toNat

def quote (text : String) : String :=
  let mark := quoteMark text.toList
  mark.toString ++ String.join (text.toList.map (quoteChar mark)) ++ mark.toString

end TemplateLint.Text
