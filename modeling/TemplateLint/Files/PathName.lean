/-!
# Path names

The name of a file as a root and parts. Empty parts and parts that stay in place are
dropped; a part that goes up is kept, since what it means depends on the files.
-/

namespace TemplateLint.Files

/-- A path name. The root is empty for a relative name, and two marks are a root of
their own. -/
structure PathName where
  root : String
  parts : List String
  deriving DecidableEq, Repr

def splitAtMark (mark : Char) (piece : List Char) : List Char → List String
  | [] => [String.ofList piece]
  | c :: rest =>
    if c == mark then String.ofList piece :: splitAtMark mark [] rest
    else splitAtMark mark (piece ++ [c]) rest

namespace PathName

def ofText (text : String) : PathName :=
  let marks := (text.toList.takeWhile (· == '/')).length
  { root := if marks = 0 then "" else if marks = 2 then "//" else "/"
    parts := (splitAtMark '/' [] text.toList).filter fun part => part != "" && part != "." }

def text (path : PathName) : String :=
  if path.root == "" && path.parts.isEmpty then "."
  else path.root ++ "/".intercalate path.parts

def below (path : PathName) (parts : List String) : PathName :=
  { path with parts := path.parts ++ parts }

def parent? (path : PathName) : Option PathName :=
  if path.parts.isEmpty then none else some { path with parts := path.parts.dropLast }

def parentsFrom (path : PathName) : Nat → List PathName
  | 0 => []
  | count + 1 =>
    match path.parent? with
    | none => []
    | some parent => parent :: parentsFrom parent count

def parents (path : PathName) : List PathName := path.parentsFrom path.parts.length

/-- The extension of a name: from its last dot on, if that is neither its first nor its
last character. -/
def extension (name : String) : String :=
  let tail := name.toList.reverse.takeWhile (· != '.')
  if tail.isEmpty || tail.length + 1 ≥ name.length then ""
  else String.ofList ('.' :: tail.reverse)

end PathName

def partsLe : List String → List String → Bool
  | [], _ => true
  | _ :: _, [] => false
  | a :: as, b :: bs => if a = b then partsLe as bs else a < b

end TemplateLint.Files
