/-!
# Located names

A span is a half-open range of character offsets. Identifiers carry their spans,
and the span of a tag name runs from its first part to its last. `TagName.render`
gives the written form of a tag name and `TagName.root` the part that names a
variable.
-/

namespace TemplateLint.Syntax

/-- The characters from offset `start` up to, not including, offset `stop`. -/
structure Span where
  start : Nat
  stop : Nat
  deriving DecidableEq, Repr

structure Ident where
  span : Span
  name : String
  deriving DecidableEq, Repr

inductive TagName where
  | simple (id : Ident)
  | namespaced (space name : Ident)
  | member (object : TagName) (property : Ident)
  deriving DecidableEq, Repr

namespace TagName

def start : TagName → Nat
  | .simple id => id.span.start
  | .namespaced space _ => space.span.start
  | .member object _ => object.start

def stop : TagName → Nat
  | .simple id => id.span.stop
  | .namespaced _ name => name.span.stop
  | .member _ property => property.span.stop

def span (name : TagName) : Span := ⟨name.start, name.stop⟩

def render : TagName → String
  | .simple id => id.name
  | .namespaced space name => space.name ++ ":" ++ name.name
  | .member object property => object.render ++ "." ++ property.name

/-- The part of a name that can name a variable: the name itself, the
namespace, or the outermost object. -/
def root : TagName → String
  | .simple id => id.name
  | .namespaced space _ => space.name
  | .member object _ => object.root

def plain? : TagName → Option String
  | .simple id => some id.name
  | _ => none

/-- A name that is neither plain nor in a namespace. -/
def isMember : TagName → Bool
  | .member .. => true
  | _ => false

end TagName

end TemplateLint.Syntax
