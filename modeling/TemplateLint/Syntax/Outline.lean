import TemplateLint.Syntax.Tree

/-!
# Numbered outlines

The nodes of a tree are numbered in source order, a node before its children.
`Tree.outline` lists them with the number of the parent and, for every field that
holds nodes, the numbers of these nodes.
-/

namespace TemplateLint.Syntax

inductive Cell where
  | child (number : Nat)
  | absent
  | list (numbers : List (Option Nat))
  | text (value : String)
  | texts (values : List String)
  | flag (value : Bool)
  | literal (value : LiteralValue)

structure Entry where
  node : Node
  parent : Option Nat
  fields : List (Field × Cell)

namespace Tree

def childNumbers (next : Nat) : List (Step × Tree) → List Nat
  | [] => []
  | (_, tree) :: rest => next :: childNumbers (next + tree.size) rest

/-- Gives out numbers to the places of a list that are not left out. -/
def fillList : List Bool → List Nat → List (Option Nat) × List Nat
  | [], numbers => ([], numbers)
  | true :: present, number :: numbers =>
    let (rest, left) := fillList present numbers
    (some number :: rest, left)
  | _ :: present, numbers =>
    let (rest, left) := fillList present numbers
    (none :: rest, left)

/-- Gives out the numbers of the children to the fields that hold them. -/
def fill : List (Field × Content) → List Nat → List (Field × Cell)
  | [], _ => []
  | (field, .child) :: rest, number :: numbers => (field, .child number) :: fill rest numbers
  | (field, .child) :: rest, [] => (field, .absent) :: fill rest []
  | (field, .absent) :: rest, numbers => (field, .absent) :: fill rest numbers
  | (field, .list present) :: rest, numbers =>
    let (filled, left) := fillList present numbers
    (field, .list filled) :: fill rest left
  | (field, .text value) :: rest, numbers => (field, .text value) :: fill rest numbers
  | (field, .texts values) :: rest, numbers => (field, .texts values) :: fill rest numbers
  | (field, .flag value) :: rest, numbers => (field, .flag value) :: fill rest numbers
  | (field, .literal value) :: rest, numbers => (field, .literal value) :: fill rest numbers

mutual

/-- The nodes of a tree, the first of the given number. -/
def outlineFrom (parent : Option Nat) (number : Nat) : Tree → List Entry
  | .mk node layout children =>
    ⟨node, parent, fill layout (childNumbers (number + 1) children)⟩
      :: outlineList number (number + 1) children

/-- The numbered nodes of children, the first of which has the number `next`. -/
def outlineList (parent next : Nat) : List (Step × Tree) → List Entry
  | [] => []
  | (_, tree) :: rest =>
    outlineFrom (some parent) next tree ++ outlineList parent (next + tree.size) rest

end

def outline (tree : Tree) : List Entry := tree.outlineFrom none 0

end Tree

end TemplateLint.Syntax
