import RubyNormalForm.Literal.Charset
import RubyNormalForm.Raw.Slots
import RubyNormalForm.Tree.Lines

/-!
# Rules

A rule turns a raw node of one kind into its normal form. It is not recursive: the normal
forms of the smaller nodes under it come from a normaliser that it is given. What holds of
every normaliser built from the rules can so be proved one rule at a time.
-/

namespace RubyNormalForm

/-- What a rule knows about the surroundings of a node. -/
structure Context where
  filename : String
  /-- What is added to the lines of the raw tree. -/
  lineOffset : Nat
  charset : Charset
  /-- Whether the innermost definition around the node is that of a method. -/
  inMethodBody : Bool := false

/-- A way to give raw nodes their normal forms. -/
abbrev Normalizer := Context → Raw.Node → Result Form

/-- A rule, given the normaliser of the smaller nodes. -/
abbrev Rule := Normalizer → Normalizer

namespace Context

/-- The encoding of the source file. -/
def encoding (ctx : Context) : Encoding :=
  ctx.charset.encoding

/-- The source line of a line in the raw tree. -/
def line (ctx : Context) (rawLine : Nat) : Nat :=
  rawLine + ctx.lineOffset

/-- The source line on which a node begins. -/
def lineOf (ctx : Context) (n : Raw.Node) : Option Nat :=
  n.firstLine.map ctx.line

/-- The surroundings inside the body of a method. -/
def methodBody (ctx : Context) : Context :=
  { ctx with inMethodBody := true }

/-- The surroundings inside the body of a class or a module. -/
def scopeBody (ctx : Context) : Context :=
  { ctx with inMethodBody := false }

end Context

/-- A node with the given items, which has no line yet. -/
def Form.of (tag : String) (items : List Item) : Form :=
  { tag := tag, items := items }

namespace Rules

variable (inner : Normalizer) (ctx : Context)

/-- The normal form of a child that must be a node or absent. -/
def value? (child : Raw) : Result (Option Form) :=
  match child with
  | .node tag children => (inner ctx ⟨tag, children⟩).map some
  | other =>
    if other.isAbsent then .ok none else .error (.malformed "value" (.expected .node other))

/-- The normal forms of the children that are present. -/
def values : List Raw → Result (List Form)
  | [] => .ok []
  | child :: rest => do
    let form ← value? inner ctx child
    let forms ← values rest
    return form.toList ++ forms

/-- The normal forms of several nodes. -/
def forms : List Raw.Node → Result (List Form)
  | [] => .ok []
  | n :: rest => do
    let form ← inner ctx n
    let forms ← forms rest
    return form :: forms

/-- A token: its kind, its text and its line. -/
structure Token where
  kind : String
  text : String
  line : Nat

/-- The node as a token. -/
def token (n : Raw.Node) : Result Token := do
  if n.isToken then
    let text ← n.stringAt 0
    let (line, _) ← n.positionAt 1
    return ⟨String.ofList (n.tag.toList.drop 1), text, line⟩
  else throw (.malformed n.tag .notToken)

/-- The text of a token. -/
def tokenText (n : Raw.Node) : Result String := do
  return (← token n).text

/-- The name of a method or an operator: a token or a symbol. -/
def name (child : Raw) : Result String :=
  match child with
  | .sym text => .ok text
  | .node tag children => tokenText ⟨tag, children⟩
  | other => .error (.malformed "name" (.expected .name other))

/-- Whether a call operator is `&.`. -/
def isSafeNavigation : Raw → Bool
  | .sym op => op == "&."
  | .node tag children => (Raw.Node.mk tag children).tokenText? == some "&."
  | _ => false

/-- The nodes of an optional list. -/
def listNodes (child : Raw) : Result (List Raw.Node) :=
  match child with
  | .node tag children =>
    if tag == Raw.listTag then Raw.Node.nodesFrom ⟨tag, children⟩ 0
    else .error (.malformed "params" (.expected .list child))
  | other =>
    let none? := match other with
      | .int n => n == 0
      | r => r.isAbsent
    if none? then .ok [] else .error (.malformed "params" (.expected .list other))

end Rules

end RubyNormalForm
