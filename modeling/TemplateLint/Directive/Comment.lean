import TemplateLint.Text.LineIndex

/-!
# Comments

The comments of a source text, found without reading its syntax: quoted strings and
templates are passed over, so that a comment mark inside them starts no comment. A quote
or comment that is never closed is passed over by its first character alone.
-/

namespace TemplateLint.Directive

open TemplateLint.Text

inductive CommentKind where
  | line
  | block
  deriving DecidableEq, Repr

namespace CommentKind

def text : CommentKind → String
  | .line => "Line"
  | .block => "Block"

end CommentKind

structure Comment where
  kind : CommentKind
  value : List Char
  line : Nat
  endLine : Nat
  deriving DecidableEq, Repr

def templateMark : Char := Char.ofNat 0x60

/-- The number of characters up to and including the closing mark. A backslash takes the
next character with it; a line end closes nothing unless the text may have several lines. -/
def closedWidth? (mark : Char) (multiline : Bool) : List Char → Option Nat
  | [] => none
  | [c] => if c == mark then some 1 else none
  | c :: next :: rest =>
    if c == mark then some 1
    else if c == '\\' then
      if next == '\n' && !multiline then none
      else (closedWidth? mark multiline rest).map (· + 2)
    else if c == '\n' && !multiline then none
    else (closedWidth? mark multiline (next :: rest)).map (· + 1)

def blockValue? : List Char → Option (List Char)
  | [] => none
  | '*' :: '/' :: _ => some []
  | c :: rest => (blockValue? rest).map (c :: ·)

/-- Something passed over as a whole: a quoted text, or a comment with its value. -/
structure Lexeme where
  width : Nat
  comment? : Option (CommentKind × List Char)
  deriving DecidableEq, Repr

def quotedLexeme (width : Nat) : Lexeme := ⟨width + 1, none⟩

def lexeme? : List Char → Option Lexeme
  | '"' :: rest => (closedWidth? '"' false rest).map quotedLexeme
  | '\'' :: rest => (closedWidth? '\'' false rest).map quotedLexeme
  | '/' :: '/' :: rest =>
    let value := rest.takeWhile (· != '\n')
    some ⟨value.length + 2, some (.line, value)⟩
  | '/' :: '*' :: rest =>
    (blockValue? rest).map fun value => ⟨value.length + 4, some (.block, value)⟩
  | c :: rest =>
    if c == templateMark then (closedWidth? templateMark true rest).map quotedLexeme else none
  | [] => none

/-- The comments of the rest of a text, at an offset, of which the first characters belong
to a lexeme already read. -/
def commentsFrom (index : LineIndex) (offset inside : Nat) : List Char → List Comment
  | [] => []
  | c :: rest =>
    match inside with
    | inside + 1 => commentsFrom index (offset + 1) inside rest
    | 0 =>
      match lexeme? (c :: rest) with
      | none => commentsFrom index (offset + 1) 0 rest
      | some lexeme =>
        let found := lexeme.comment?.toList.map fun (kind, value) =>
          ⟨kind, value, (index.position offset).line,
            (index.position (offset + lexeme.width)).line⟩
        found ++ commentsFrom index (offset + 1) (lexeme.width - 1) rest

/-- The comments of a text, in order. -/
def comments (text : List Char) : List Comment :=
  commentsFrom (.ofText text) 0 0 text

end TemplateLint.Directive
