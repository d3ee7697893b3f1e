import RubyNormalForm.Proofs.Cli.Directory
import RubyNormalForm.Proofs.Cli.Run
import RubyNormalForm.Proofs.Events.Attachment
import RubyNormalForm.Proofs.Events.Conservation
import RubyNormalForm.Proofs.Events.Nesting
import RubyNormalForm.Proofs.Events.PostOrder
import RubyNormalForm.Proofs.Heredoc
import RubyNormalForm.Proofs.Heredoc.Splitting
import RubyNormalForm.Proofs.Literal.Integer
import RubyNormalForm.Proofs.Literal.Minimal
import RubyNormalForm.Proofs.Literal.Modifier
import RubyNormalForm.Proofs.Literal.Rational
import RubyNormalForm.Proofs.Literal.Regexp
import RubyNormalForm.Proofs.Literal.Validity
import RubyNormalForm.Proofs.Program.Absence
import RubyNormalForm.Proofs.Program.Bodies
import RubyNormalForm.Proofs.Program.ClassVariables
import RubyNormalForm.Proofs.Program.Comments
import RubyNormalForm.Proofs.Program.Enclosure
import RubyNormalForm.Proofs.Program.Lines
import RubyNormalForm.Proofs.Program.Promotion
import RubyNormalForm.Proofs.Program.Schema
import RubyNormalForm.Proofs.Program.Surroundings
import RubyNormalForm.Proofs.Quoting
import RubyNormalForm.Proofs.Raw.Absence
import RubyNormalForm.Proofs.Raw.Hereditary
import RubyNormalForm.Proofs.Raw.Layout
import RubyNormalForm.Proofs.Raw.Site
import RubyNormalForm.Proofs.Raw.RoundTrip
import RubyNormalForm.Proofs.Raw.Token
import RubyNormalForm.Proofs.Rules.Absence
import RubyNormalForm.Proofs.Rules.Agreement.Assignment
import RubyNormalForm.Proofs.Rules.Agreement.Basic
import RubyNormalForm.Proofs.Rules.Agreement.Definition
import RubyNormalForm.Proofs.Rules.Agreement.Literal
import RubyNormalForm.Proofs.Rules.Agreement.Program
import RubyNormalForm.Proofs.Rules.Agreement.Statement
import RubyNormalForm.Proofs.Rules.Agreement.Text
import RubyNormalForm.Proofs.Rules.Assigned
import RubyNormalForm.Proofs.Rules.Branching
import RubyNormalForm.Proofs.Rules.Chains
import RubyNormalForm.Proofs.Rules.Clauses
import RubyNormalForm.Proofs.Rules.Composition.Assignment
import RubyNormalForm.Proofs.Rules.Composition.Basic
import RubyNormalForm.Proofs.Rules.Composition.Definition
import RubyNormalForm.Proofs.Rules.Composition.Program
import RubyNormalForm.Proofs.Rules.Composition.Statement
import RubyNormalForm.Proofs.Rules.Composition.Text
import RubyNormalForm.Proofs.Rules.Folding
import RubyNormalForm.Proofs.Rules.Interpolation
import RubyNormalForm.Proofs.Rules.Locality
import RubyNormalForm.Proofs.Rules.Matching
import RubyNormalForm.Proofs.Rules.Negation
import RubyNormalForm.Proofs.Rules.OperatorAssignment
import RubyNormalForm.Proofs.Rules.Ordinary
import RubyNormalForm.Proofs.Rules.Outcome
import RubyNormalForm.Proofs.Rules.Parts
import RubyNormalForm.Proofs.Rules.Regular
import RubyNormalForm.Proofs.Rules.Regularity
import RubyNormalForm.Proofs.Rules.Suffix
import RubyNormalForm.Proofs.Rules.Targets
import RubyNormalForm.Proofs.Rules.Wrapping
import RubyNormalForm.Proofs.Tree.Everywhere
import RubyNormalForm.Proofs.Tree.Likeness
import RubyNormalForm.Proofs.Tree.Lines
import RubyNormalForm.Proofs.Tree.Nodes
import RubyNormalForm.Proofs.Tree.Schema
import RubyNormalForm.Proofs.Tree.Unambiguous
import RubyNormalForm.Proofs.Tree.Unlined
import RubyNormalForm.Proofs.Utf8
import RubyNormalForm.Proofs.Utf8.Order
import RubyNormalForm.Main
import RubyNormalForm.Events.Replay
import RubyNormalForm.Normalize
import RubyNormalForm.Rules.Collection
import RubyNormalForm.Rules.Text
import RubyNormalForm.Rules.Assignment
import RubyNormalForm.Rules.Operator
import RubyNormalForm.Rules.Call
import RubyNormalForm.Rules.Definition
import RubyNormalForm.Rules.Parameter
import RubyNormalForm.Rules.Condition
import RubyNormalForm.Rules.Statement
import RubyNormalForm.Rules.Target
import RubyNormalForm.Source
import RubyNormalForm.Config
import RubyNormalForm.Json.Reader
import RubyNormalForm.Tree.Json
import RubyNormalForm.Tree.Lines
import RubyNormalForm.Tree.Printer
import RubyNormalForm.Raw.Reader
import RubyNormalForm.Raw.Slots
import RubyNormalForm.Text.Word
import RubyNormalForm.Error
import RubyNormalForm.Literal.Number
import RubyNormalForm.Literal.Charset
import RubyNormalForm.Literal.Heredoc
import RubyNormalForm.Literal.Regexp
import RubyNormalForm.Symbol
import RubyNormalForm.Number.Reading
import RubyNormalForm.Number.Layout
import RubyNormalForm.Number.Binary64
import RubyNormalForm.Text.Blank
import RubyNormalForm.Text.Utf8
import RubyNormalForm.Proofs.Events.Headers
import RubyNormalForm.Proofs.Events.Openers
import RubyNormalForm.Proofs.Rules.Parameters
import RubyNormalForm.Proofs.Rules.Signatures
