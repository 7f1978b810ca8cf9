import TemplateLint.Files.Disk

/-!
# Files in memory

A tree of directories and files, with the same access as a disk (`FileTree.disk`). The
tree hangs below a base name, which is the full name of the current directory; nothing
exists above it.
-/

namespace TemplateLint.Files

/-- A file, or a directory with its entries. -/
inductive FileTree where
  | file (octets : List UInt8)
  | directory (entries : List (String × FileTree))

namespace FileTree

def empty : FileTree := .directory []

def entry? (name : String) : FileTree → Option FileTree
  | .file _ => none
  | .directory entries => entries.lookup name

def setEntry (name : String) (tree : FileTree) : List (String × FileTree) → List (String × FileTree)
  | [] => [(name, tree)]
  | (known, old) :: rest =>
    if known = name then (known, tree) :: rest else (known, old) :: setEntry name tree rest

def put (new : FileTree) : List String → FileTree → FileTree
  | [], _ => new
  | name :: rest, tree =>
    let inner := put new rest ((tree.entry? name).getD empty)
    match tree with
    | .file _ => .directory [(name, inner)]
    | .directory entries => .directory (setEntry name inner entries)

/-- The tree that parts lead to, given the trees above the current one. -/
def walk (above : List FileTree) (tree : FileTree) : List String → Except FileFault FileTree
  | [] => .ok tree
  | part :: rest =>
    match tree with
    | .file _ => .error .notADirectory
    | .directory entries =>
      if part == ".." then
        match above with
        | [] => .error .missing
        | parent :: above => walk above parent rest
      else
        match entries.lookup part with
        | none => .error .missing
        | some inner => walk (.directory entries :: above) inner rest

mutual

def filesBelow : FileTree → List (List String)
  | .file _ => []
  | .directory entries => filesIn entries

def filesIn : List (String × FileTree) → List (List String)
  | [] => []
  | (name, .file _) :: rest => [name] :: filesIn rest
  | (name, .directory entries) :: rest => (filesIn entries).map (name :: ·) ++ filesIn rest

end

def inside? (base : String) (path : PathName) : Option (List String) :=
  let top := PathName.ofText base
  if path.root == top.root && top.parts.isPrefixOf path.parts then
    some (path.parts.drop top.parts.length)
  else if path.root == "" then some path.parts
  else none

def lookup (base : String) (tree : FileTree) (path : String) : Except FileFault FileTree :=
  match inside? base (.ofText path) with
  | none => .error .missing
  | some parts => tree.walk [] parts

/-- Parts without those that go up, unless they go up too far. -/
def flatten? (done : List String) : List String → Option (List String)
  | [] => some done
  | part :: rest =>
    if part != ".." then flatten? (done ++ [part]) rest
    else if done.isEmpty then none
    else flatten? done.dropLast rest

def disk (base : String) (tree : FileTree) : Disk Id where
  read path :=
    match tree.lookup base path with
    | .ok (.file octets) => .ok octets
    | .ok (.directory _) => .error .isADirectory
    | .error fault => .error fault
  isFile path := (tree.lookup base path) matches .ok (.file _)
  isDirectory path := (tree.lookup base path) matches .ok (.directory _)
  filesBelow path :=
    match tree.lookup base path with
    | .ok found => found.filesBelow
    | .error _ => []
  resolve path :=
    match (inside? base (.ofText path)).bind (flatten? []) with
    | some parts => (PathName.below (.ofText base) parts).text
    | none => "/"

end FileTree

end TemplateLint.Files
