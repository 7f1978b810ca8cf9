import TemplateLint.Decorator.Registry
import TemplateLint.Scope.Event
import TemplateLint.Template.Binding

/-!
# Names bound by templates

A reference that no scope declares may still be bound by a binding attribute of an enclosing
element, the innermost first (`isResolved`).

The names of an attribute are found out when it is first looked at and are kept
(`Progress.known`). An attribute without names is reported at that time: the finding waits
(`Progress.pending`) until `validate` or `resolve` hands it out.
-/

namespace TemplateLint.Template

open TemplateLint.Syntax TemplateLint.Scope TemplateLint.Decorator

structure Document where
  tree : Tree
  text : List Char
  registry : Registry

/-- A name or an attribute that does not resolve. -/
inductive Finding where
  /-- The value of a binding attribute is not a name; its text is given. -/
  | invalidBinding (site : BindingAttribute) (value : String)
  | unresolved (id : Ident)

namespace Finding

def errorId : Finding → String
  | .invalidBinding .. => "invalidBindingValue"
  | .unresolved _ => "undefinedIdentifier"

def message : Finding → String
  | .invalidBinding site value =>
    "\"" ++ value ++ "\" is not an identifier. The \"" ++ site.binder.text
      ++ "\" attribute can only be used with an identifier."
  | .unresolved id => "'" ++ id.name ++ "' is not defined."

def node : Finding → Node
  | .invalidBinding site _ => site.node
  | .unresolved id => id.node

end Finding

/-! ## The surroundings of a reference -/

def isTypeofOperand (tree : Tree) (place : Path) : Bool :=
  match tree.parent? place with
  | some ⟨_, .unary operator _⟩ => operator == "typeof"
  | _ => false

def inDecorator (tree : Tree) (place : Path) : Bool :=
  (tree.ancestors place).any fun node => node.form matches .decorator _

def elementAttributes (tree : Tree) (place : Path) : List BindingAttribute :=
  match tree.nodeAt? place with
  | some ⟨_, .jsxElement opening _ _⟩ => bindingAttributes (place.child .openingElement) opening
  | _ => []

/-- The binding attributes of the elements around a place, the innermost element first. -/
def enclosingAttributes (tree : Tree) : Path → List BindingAttribute
  | [] => []
  | _ :: outer => elementAttributes tree outer ++ enclosingAttributes tree outer

/-- References that need no definition: operands of `typeof`, and globals in decorators. -/
def isExempt (document : Document) (considerTypeof : Bool) (reference : Occurrence) : Bool :=
  (!considerTypeof && isTypeofOperand document.tree reference.place)
    || (document.registry.isGlobal reference.id.name
      && inDecorator document.tree reference.place)

/-! ## Looking at attributes -/

/-- The names found for the attributes looked at so far, and the findings about them not yet
handed out. -/
structure Progress where
  known : List (Path × Option Names)
  pending : List Finding

namespace Progress

def start : Progress := ⟨[], []⟩

/-- What is wrong with a binding attribute. -/
def fault? (document : Document) (site : BindingAttribute) : Option Finding :=
  match site.names? with
  | some _ => none
  | none =>
    some (.invalidBinding site
      ((site.culprit?.map (·.text document.text)).getD ""))

/-- Look at an attribute: the names kept for it, or else its names, which are kept from now
on. -/
def examine (document : Document) (progress : Progress) (site : BindingAttribute) :
    Option Names × Progress :=
  match progress.known.lookup site.place with
  | some names => (names, progress)
  | none =>
    (site.names?,
      { known := (site.place, site.names?) :: progress.known
        pending := progress.pending ++ (fault? document site).toList })

/-- Looks at attributes one after the other. -/
def examineAll (document : Document) (progress : Progress) (attributes : List BindingAttribute) :
    Progress :=
  attributes.foldl (fun current site => (current.examine document site).2) progress

/-- Hands out the findings that wait. -/
def drain (progress : Progress) : List Finding × Progress :=
  (progress.pending, { progress with pending := [] })

end Progress

/-! ## Resolution -/

/-- Whether one of some attributes binds a name. They are looked at in turn, up to the first
that does. -/
def findBinding (document : Document) (name : String) :
    List BindingAttribute → Progress → Bool × Progress
  | [], progress => (false, progress)
  | site :: rest, progress =>
    let (names, next) := progress.examine document site
    if names.any fun names => (BoundNames.ofForm site.form names).binds name then (true, next)
    else findBinding document name rest next

/-- Whether a reference that no scope declares is in order. -/
def isResolved (document : Document) (considerTypeof : Bool) (reference : Occurrence)
    (progress : Progress) : Bool × Progress :=
  if isExempt document considerTypeof reference then (true, progress)
  else
    findBinding document reference.id.name (enclosingAttributes document.tree reference.place)
      progress

def areResolved (document : Document) (considerTypeof : Bool) :
    List Occurrence → Progress → List Bool × Progress
  | [], progress => ([], progress)
  | reference :: rest, progress =>
    let (answer, next) := isResolved document considerTypeof reference progress
    let (answers, last) := areResolved document considerTypeof rest next
    (answer :: answers, last)

/-! ## Findings -/

/-- All attributes of a document whose value has to be a name, in source order. -/
def documentAttributes (tree : Tree) : List BindingAttribute :=
  tree.places.flatMap fun (place, view) => checkedAttributes place view.node

/-- Checks the value of every binding attribute. -/
def validate (document : Document) (progress : Progress) : List Finding × Progress :=
  (progress.examineAll document (documentAttributes document.tree)).drain

/-- The findings about references that no scope declares, after those about attributes
first looked at on the way. -/
def resolve (document : Document) (considerTypeof : Bool) (references : List Occurrence)
    (progress : Progress) : List Finding × Progress :=
  let (answers, after) := areResolved document considerTypeof references progress
  let unresolved := (references.zip answers).filterMap fun (reference, answer) =>
    if answer then none else some (.unresolved reference.id)
  let (invalid, rest) := after.drain
  (invalid ++ unresolved, rest)

end TemplateLint.Template
