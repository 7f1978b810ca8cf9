import TemplateLint.Decorator.Registry
import TemplateLint.Syntax.Node

/-!
# Derived classes

A class is derived if it extends another one, or if one of its decorators gives it a
base class.
-/

namespace TemplateLint.Constructor

open TemplateLint.Syntax TemplateLint.Decorator

def decoratorName? : Node → Option String
  | ⟨_, .decorator ⟨_, .call callee _⟩⟩ => callee.identifier?
  | ⟨_, .decorator expression⟩ => expression.identifier?
  | _ => none

def impliesBase (registry : Registry) (decorators : List Node) : Bool :=
  decorators.any fun decorator => (decoratorName? decorator).any registry.impliesBase

/-- Whether a class has a base, written or implied by a decorator. -/
def isDerived (registry : Registry) : Node → Bool
  | ⟨_, .classDefinition _ decorators _ superClass _⟩ =>
    superClass.isSome || impliesBase registry decorators
  | _ => false

mutual

/-- Whether the value may be a constructor. -/
def mayConstruct : Node → Bool
  | ⟨_, .classDefinition .expression ..⟩ | ⟨_, .function .expression ..⟩ => true
  | ⟨_, .this⟩ | ⟨_, .member ..⟩ | ⟨_, .call ..⟩ | ⟨_, .construct ..⟩ | ⟨_, .yield ..⟩
  | ⟨_, .taggedTemplate ..⟩ | ⟨_, .newTarget⟩ => true
  | ⟨_, .identifier name⟩ => name != "undefined"
  | ⟨_, .assignment _ _ right⟩ => mayConstruct right
  | ⟨_, .binary left operator right⟩ =>
    operator.isLogical && (mayConstruct left || mayConstruct right)
  | ⟨_, .conditional _ consequent alternate⟩ => mayConstruct alternate || mayConstruct consequent
  | ⟨_, .sequence expressions⟩ => lastMayConstruct expressions
  | _ => false

def lastMayConstruct : List Node → Bool
  | [] => false
  | [last] => mayConstruct last
  | _ :: rest => lastMayConstruct rest

end

/-- What the check of a constructor needs to know about its class. -/
structure Heritage where
  derived : Bool
  fromConstructor : Bool
  deriving DecidableEq, Repr

/-- The heritage of a class. A base class given by a decorator is a constructor. -/
def heritage (registry : Registry) (node : Node) : Heritage where
  derived := isDerived registry node
  fromConstructor :=
    match node with
    | ⟨_, .classDefinition _ _ _ superClass _⟩ => superClass.all mayConstruct
    | _ => true

end TemplateLint.Constructor
