import TemplateLint.Main
import TemplateLint.Files.Memory
import TemplateLint.Syntax.Outline
import TemplateLint.Proofs.Syntax.Navigation
import TemplateLint.Proofs.Grammar.Folding
import TemplateLint.Proofs.Grammar.Escapes
import TemplateLint.Proofs.Grammar.Spans
import TemplateLint.Proofs.Grammar.Comments
import TemplateLint.Proofs.Grammar.Tags
import TemplateLint.Proofs.Directive.Lines
import TemplateLint.Proofs.Directive.Globals
import TemplateLint.Proofs.Directive.Agreement
import TemplateLint.Proofs.Scope.Patterns
import TemplateLint.Proofs.Scope.Exports
import TemplateLint.Proofs.Scope.Marks
import TemplateLint.Proofs.Template.Validation
import TemplateLint.Proofs.Constructor.Positions
import TemplateLint.Proofs.Constructor.Heritage
import TemplateLint.Proofs.Constructor.Monotone
import TemplateLint.Proofs.Run.Combining
import TemplateLint.Proofs.Config.Memory
import TemplateLint.Proofs.Config.Decorators
import TemplateLint.Proofs.Config.Faults
import TemplateLint.Proofs.Diagnostic.JsonLines
