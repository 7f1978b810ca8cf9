import TemplateLint.Syntax.Tree

/-!
# Binding attributes

Some markup attributes bind names for the content of their element:

    <repeat for={ (item, index) in items }>   the element of each round and its index
    <repeat collection={ items } as={ item }> the same by `as`
    <using value={ x } as={ y }>              one value
    <MyComponent as={ params }>               parameters of the component
    <dialog:footer as={ accept, cancel }>     two of them
-/

namespace TemplateLint.Template

open TemplateLint.Syntax

/-- What an element does with its binding attributes. -/
inductive TagKind where
  | repetition
  | naming
  | generic
  | member
  deriving DecidableEq, Repr

namespace TagKind

def text : TagKind → String
  | .repetition => "repeat" | .naming => "using" | .generic => "generic" | .member => "none"

def ofTag (tag : TagName) : TagKind :=
  if tag.isMember then .member
  else if tag.render == "repeat" then .repetition
  else if tag.render == "using" then .naming
  else .generic

end TagKind

/-- The attributes that bind names. -/
inductive Binder where
  | forEach
  | as
  deriving DecidableEq, Repr

namespace Binder

def text : Binder → String
  | .forEach => "for"
  | .as => "as"

end Binder

/-- How the names of a binding attribute are used. -/
inductive BindingForm where
  | iteration
  | single
  | parameter
  deriving DecidableEq, Repr

namespace BindingForm

def text : BindingForm → String
  | .iteration => "iteration" | .single => "single" | .parameter => "parameter"

/-- What `as` binds in a tag of a kind. -/
def ofTagKind : TagKind → BindingForm
  | .repetition => .iteration
  | .naming => .single
  | .generic | .member => .parameter

end BindingForm

/-- One name, or two. -/
structure Names where
  first : String
  second? : Option String
  deriving DecidableEq, Repr

namespace Names

def toList (names : Names) : List String := names.first :: names.second?.toList

end Names

/-- The names that an attribute binds. -/
inductive BoundNames where
  | iteration (names : Names)
  | single (name : String)
  | parameter (names : Names)
  deriving DecidableEq, Repr

namespace BoundNames

/-- One name by itself is a single value only where the form asks for one. -/
def ofForm (form : BindingForm) (names : Names) : BoundNames :=
  match form, names.second? with
  | .iteration, _ => .iteration names
  | .single, none => .single names.first
  | .single, some _ => .parameter names
  | .parameter, _ => .parameter names

def toList : BoundNames → List String
  | .iteration names => names.toList
  | .single name => [name]
  | .parameter names => names.toList

def binds (bound : BoundNames) (name : String) : Bool := bound.toList.contains name

end BoundNames

/-- An attribute that binds names. -/
structure BindingAttribute where
  binder : Binder
  form : BindingForm
  place : Path
  node : Node
  /-- The value, without the braces around it. -/
  value? : Option Node

def attributeName? : Node → Option String
  | ⟨_, .jsxAttribute name _⟩ => name.plain?
  | _ => none

/-- The value of an attribute, without the braces around it. -/
def attributeValue? : Node → Option Node
  | ⟨_, .jsxAttribute _ (some ⟨_, .jsxContainer expression⟩)⟩ => some expression
  | ⟨_, .jsxAttribute _ value⟩ => value
  | _ => none

def attributesNamed (place : Path) (binder : Binder) (form : BindingForm)
    (attributes : List Node) : List BindingAttribute :=
  attributes.zipIdx.filterMap fun (node, index) =>
    if attributeName? node == some binder.text then
      some ⟨binder, form, place.item .attributes index, node, attributeValue? node⟩
    else none

/-- The binding attributes of an opening tag at a place, `for` before `as`. Of several
attributes with one name the last counts. -/
def bindingAttributes (place : Path) : Node → List BindingAttribute
  | ⟨_, .jsxOpening tag attributes _⟩ =>
    let last := fun binder form => (attributesNamed place binder form attributes).getLast?.toList
    match TagKind.ofTag tag with
    | .member => []
    | .repetition => last .forEach .iteration ++ last .as .iteration
    | kind => last .as (.ofTagKind kind)
  | _ => []

/-- The attributes of an opening tag whose value has to be a name: the binding attributes,
and `as` also on a tag that binds nothing. -/
def checkedAttributes (place : Path) : Node → List BindingAttribute
  | ⟨span, .jsxOpening tag attributes selfClosing⟩ =>
    match TagKind.ofTag tag with
    | .member => attributesNamed place .as .parameter attributes
    | _ => bindingAttributes place ⟨span, .jsxOpening tag attributes selfClosing⟩
  | _ => []

/-! ## The names of an attribute -/

/-- An identifier, or exactly two of them in a row. -/
def names? : Node → Option Names
  | ⟨_, .identifier name⟩ => some ⟨name, none⟩
  | ⟨_, .sequence [⟨_, .identifier first⟩, ⟨_, .identifier second⟩]⟩ => some ⟨first, some second⟩
  | _ => none

namespace BindingAttribute

/-- The expression that has to be a name or two: what stands before `in` for `for`, and
the whole value for `as`. A value of `for` without `in` has none. -/
def target? (site : BindingAttribute) : Option Node :=
  match site.binder, site.value? with
  | .forEach, some ⟨_, .binary left .inside _⟩ => some left
  | .forEach, _ => none
  | .as, value => value

def names? (site : BindingAttribute) : Option Names := site.target?.bind Template.names?

/-- The expression to blame for an attribute without names, if there is any. -/
def culprit? (site : BindingAttribute) : Option Node :=
  match site.target? with
  | some target => some target
  | none => site.value?

def bound? (site : BindingAttribute) : Option BoundNames :=
  site.names?.map (.ofForm site.form)

def binds (site : BindingAttribute) (name : String) : Bool :=
  site.bound?.any (·.binds name)

end BindingAttribute

end TemplateLint.Template
