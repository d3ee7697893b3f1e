import RubyNormalForm.Raw.Printer
import RubyNormalForm.Text.Printable

/-!
# Errors

Every failure of reading, replaying or normalising is one of the causes below. The wording
of a cause is fixed in `Error.message` and the functions under it.
-/

namespace RubyNormalForm

/-- What is wrong with a source or with the text of a raw tree. -/
inductive SourceFault where
  /-- The text is not in the notation of raw trees. -/
  | malformedDump
  /-- An integer does not fit 64 bits. -/
  | integerRange (negative : Bool)
  /-- A node was wanted at the top. -/
  | notArray (found : Raw)
  | unknownEncoding (name : String)
  /-- A grammar reported an error of its own. -/
  | reported (message : String)

/-- What is wanted where a raw tree has something else. -/
inductive Wanted where
  | node
  | nodeOrNil
  | string
  | symbol
  | position
  | statements
  | statement
  | arguments
  | name
  | parameterList
  | list
  | value

/-- Where a value was found that cannot stand there. -/
inductive Place where
  | parameter
  | stringPart
  | stringBody
  | target

/-- The literals that are checked when they are read. -/
inductive NumberKind where
  | integer
  | float
  | rational
  | imaginary

/-- What is wrong with the children of a raw node. -/
inductive Fault where
  | expected (wanted : Wanted) (found : Raw)
  | misplaced (place : Place) (found : Raw)
  | notToken
  | invalidNumber (kind : NumberKind) (text : String)
  | invalidBackReference (text : String)
  | unknownKeyword (word : String)
  | unexpectedToken (kind : String)
  | unassignable (kind : String)
  | unreadable (kind : String)
  | assignmentToNothing
  | unexpectedAssignmentTarget (tag : String)
  | unexpectedTarget (tag : String)
  | noMethodNames
  /-- A reduction takes more values than there are. -/
  | missingValues (wanted available : Nat)
  /-- A replay ended with more than one value. -/
  | leftoverValues (count : Nat)

/-- The definitions that comments belong to. -/
inductive DefinitionKind where
  | classDef
  | moduleDef
  | methodDef
deriving DecidableEq

/-- What is wrong with the nesting of definitions in a stream of events. -/
inductive NestingFault where
  | nothingOpen (closed : DefinitionKind)
  | otherOpen (closed opened : DefinitionKind)
  | leftOpen (depth : Nat) (innermost : DefinitionKind)

/-- A failure. -/
inductive Error where
  | source (fault : SourceFault) (filename : String) (line : Option Nat)
  | unsupported (construct : String) (fault : Option Fault)
  | nesting (fault : NestingFault)

/-- Whose failure it is: that of the source, or of the library and what feeds it. -/
inductive ErrorCategory where
  | source
  | internal
deriving DecidableEq

namespace SourceFault

/-- The wording of the fault. -/
def message : SourceFault → String
  | .malformedDump => "malformed raw dump"
  | .integerRange negative =>
    "bad integer: number too " ++ (if negative then "small" else "large") ++
      " to fit in target type"
  | .notArray found => "raw dump must be an array, found " ++ found.text
  | .unknownEncoding name => "unknown encoding name: " ++ name
  | .reported message => message

end SourceFault

namespace Wanted

/-- The wording of what is wanted. -/
def phrase : Wanted → String
  | .node => "a node"
  | .nodeOrNil => "a node or nil"
  | .string => "a string"
  | .symbol => "a symbol"
  | .position => "a position"
  | .statements => "statements"
  | .statement => "a statement"
  | .arguments => "arguments"
  | .name => "a name"
  | .parameterList => "a parameter list"
  | .list => "a list"
  | .value => "a value"

end Wanted

namespace Place

/-- The wording of the place. -/
def phrase : Place → String
  | .parameter => "parameter"
  | .stringPart => "string part"
  | .stringBody => "string body"
  | .target => "target"

end Place

namespace NumberKind

/-- The wording of the kind. -/
def phrase : NumberKind → String
  | .integer => "integer literal"
  | .float => "float literal"
  | .rational => "rational"
  | .imaginary => "imaginary"

end NumberKind

namespace Fault

/-- The wording of the fault. -/
def message : Fault → String
  | .expected wanted found => "expected " ++ wanted.phrase ++ ", found " ++ found.text
  | .misplaced place found => "unexpected " ++ place.phrase ++ " " ++ found.text
  | .notToken => "expected a scanner token"
  | .invalidNumber kind text => "invalid " ++ kind.phrase ++ " " ++ text
  | .invalidBackReference text => "invalid back reference " ++ Text.quoted text
  | .unknownKeyword word => "keyword " ++ word
  | .unexpectedToken kind => "unexpected @" ++ kind
  | .unassignable kind => "cannot assign to @" ++ kind
  | .unreadable kind => "cannot read @" ++ kind
  | .assignmentToNothing => "assignment to nothing"
  | .unexpectedAssignmentTarget tag => "unexpected assignment target " ++ tag
  | .unexpectedTarget tag => "unexpected target " ++ tag
  | .noMethodNames => "no method names"
  | .missingValues wanted available =>
    "needs " ++ toString wanted ++ " values, " ++ toString available ++ " on the stack"
  | .leftoverValues count => toString count ++ " values left on the stack"

end Fault

namespace DefinitionKind

/-- The wording of the kind. -/
def phrase : DefinitionKind → String
  | .classDef => "Class"
  | .moduleDef => "Module"
  | .methodDef => "Def"

end DefinitionKind

namespace NestingFault

/-- The wording of the fault. -/
def message : NestingFault → String
  | .nothingOpen closed => closed.phrase ++ " completed with no open definition"
  | .otherOpen closed opened => closed.phrase ++ " completed while " ++ opened.phrase ++ " was open"
  | .leftOpen depth innermost =>
    toString depth ++ " definition frame(s) left open at end of input, innermost " ++
      innermost.phrase

end NestingFault

namespace Error

/-- The wording of the error. -/
def message : Error → String
  | .source fault filename line =>
    let place := match line with
      | some n => toString n
      | none => "?"
    filename ++ ":" ++ place ++ ": " ++ fault.message
  | .unsupported construct fault =>
    let detail := match fault with
      | some f => ": " ++ f.message
      | none => ""
    "unsupported construct \x60" ++ construct ++ "\x60" ++ detail
  | .nesting fault => "comment stack violation: " ++ fault.message

/-- The category of the error. -/
def category : Error → ErrorCategory
  | .source _ _ _ => .source
  | .unsupported _ _ => .internal
  | .nesting _ => .internal

/-- The error of a node whose children are not as they must be. -/
def malformed (construct : String) (fault : Fault) : Error :=
  .unsupported construct (some fault)

end Error

/-- The result of a step that can fail. -/
abbrev Result (α : Type) := Except Error α

end RubyNormalForm
