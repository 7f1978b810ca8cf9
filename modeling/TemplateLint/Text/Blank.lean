/-!
# Blank characters

Two classes of blanks are in use. Source text is divided by the characters of
the Unicode property `White_Space` (`isWhiteSpace`). Comments and option texts
are divided by the larger class that also holds the four information
separators U+001C to U+001F (`isBlank`).
-/

namespace TemplateLint.Text

def isWhiteSpace (c : Char) : Bool :=
  let n := c.toNat
  (9 ≤ n && n ≤ 13) || n == 0x20 || n == 0x85 || n == 0xa0 || n == 0x1680
    || (0x2000 ≤ n && n ≤ 0x200a) || n == 0x2028 || n == 0x2029 || n == 0x202f
    || n == 0x205f || n == 0x3000

/-- White space and the information separators. -/
def isBlank (c : Char) : Bool :=
  isWhiteSpace c || (0x1c ≤ c.toNat && c.toNat ≤ 0x1f)

def trimEnd (text : List Char) : List Char :=
  (text.reverse.dropWhile isBlank).reverse

def trim (text : List Char) : List Char :=
  trimEnd (text.dropWhile isBlank)

def strip (text : String) : String :=
  String.ofList (trim text.toList)

/-- The text with its capital letters `A` to `Z` made small. -/
def lowerAscii (text : String) : String :=
  String.ofList (text.toList.map Char.toLower)

end TemplateLint.Text
