import TemplateLint.Syntax.Node

/-!
# Assignment targets

An array or object literal on the left of a plain assignment is a pattern. `toPattern`
turns it into one: literals become patterns, spread elements rest elements, and
inner plain assignments defaults. Every other expression stays what it is.
-/

namespace TemplateLint.Grammar

open TemplateLint.Syntax

mutual

/-- An expression as the target of an assignment. -/
def toPattern : Node → Node
  | ⟨span, .arrayExpression elements⟩ => ⟨span, .arrayPattern (toPatterns? elements)⟩
  | ⟨span, .objectExpression properties⟩ => ⟨span, .objectPattern (propertyPatterns properties)⟩
  | ⟨span, .spreadElement argument⟩ => ⟨span, .restElement (toPattern argument)⟩
  | ⟨span, .assignment left .plain right⟩ => ⟨span, .assignmentPattern left right⟩
  | node => node

def toPatterns? : List (Option Node) → List (Option Node)
  | [] => []
  | none :: rest => none :: toPatterns? rest
  | some element :: rest => some (toPattern element) :: toPatterns? rest

def propertyPatterns : List Node → List Node
  | [] => []
  | ⟨span, .property key value style computed⟩ :: rest =>
    ⟨span, .property key (toPattern value) style computed⟩ :: propertyPatterns rest
  | ⟨span, .spreadElement argument⟩ :: rest =>
    ⟨span, .restElement (toPattern argument)⟩ :: propertyPatterns rest
  | other :: rest => other :: propertyPatterns rest

end

end TemplateLint.Grammar
