import TemplateLint.Decorator.Registry

/-!
# Standard decorators

The decorators that every project has unless its configuration turns them off.
-/

namespace TemplateLint.Decorator

def standardSpec (source name : String) (inherits? : Option String) : String × Spec :=
  (name, ⟨true, inherits?.isSome, inherits?, some source, some name⟩)

def Registry.standard : Registry := ⟨[
  standardSpec "@twist/core" "Abstract" none,
  standardSpec "@twist/core" "Action" none,
  standardSpec "@twist/core" "Attribute" none,
  standardSpec "@twist/core" "Bind" none,
  standardSpec "@twist/core" "Cache" none,
  standardSpec "@twist/react" "Component" (some "BaseComponent"),
  standardSpec "@twist/core" "Debounce" none,
  standardSpec "@twist/core" "Delay" none,
  standardSpec "@twist/core" "Global" none,
  standardSpec "@twist/core" "Observable" none,
  standardSpec "@twist/core" "Prototype" none,
  standardSpec "@twist/core" "State" none,
  standardSpec "@twist/core" "Store" (some "BaseStore"),
  standardSpec "@twist/core" "Task" none,
  standardSpec "@twist/core" "Throttle" none,
  standardSpec "@twist/core" "Wrap" none]⟩

end TemplateLint.Decorator
