import RubyNormalForm.Rules.Target

/-!
# Assignments

Single, multiple and operator assignments. An operator assignment to a variable is an
assignment of the operation; to an attribute or an element it has a form of its own.
-/

namespace RubyNormalForm.Rules

/-- The value of a list on the right side of a single assignment. -/
def listValue : List Form → Form
  | [arg] => if arg.is "splat" then .of "svalue" [arg.toItem] else .of "svalue" [(array [arg]).toItem]
  | args => .of "svalue" [(array args).toItem]

/-- The value of a list on the right side of a multiple assignment. -/
def multipleValue : List Form → Form
  | [arg] => if arg.is "splat" then arg else array [arg]
  | args => array args

/-- The right side of an assignment, given what a list and what a single value become. -/
def rightSide (ofList : List Form → Form) (ofValue : Form → Form) : Rule := fun inner ctx n =>
  match n.slot 1 with
  | .node tag children =>
    if tag == Raw.listTag then
      (arguments inner ctx (.node tag children)).map ofList
    else (inner ctx ⟨tag, children⟩).map ofValue
  | other => .error (n.expected .value other)

/-- `a = b`. -/
def assignRule : Rule := fun inner ctx n => do
  let left ← n.nodeAt 0
  let value ← rightSide listValue id inner ctx n
  assign inner ctx (some value) left

/-- `a, b = c`. -/
def multipleAssignRule : Rule := fun inner ctx n => do
  let left ← leftSide inner ctx (← n.nodeAt 0)
  let right ← rightSide multipleValue (fun value => .of "to_ary" [value.toItem]) inner ctx n
  return .of "masgn" [(array left).toItem, right.toItem]

/-- The operator of an operator assignment without its equals sign. -/
def withoutEquals (operator : String) : String :=
  if operator.toList.getLast? == some '=' then String.ofList operator.toList.dropLast
  else operator

/-- The tag of a read of a token of the given kind. -/
def readTag? (kind : String) : Option String :=
  if kind == "ident" then some "lvar"
  else if kind == "ivar" || kind == "gvar" || kind == "cvar" || kind == "const" then some kind
  else none

/-- The read of a variable or a constant that is assigned to. -/
def readTarget : Rule := fun inner ctx n => do
  if n.is "var_field" then
    let node ← n.nodeAt 0
    let t ← token node
    match readTag? t.kind with
    | some tag => return (Form.of tag [.sym t.text]).withLine (ctx.lineOf node)
    | none => throw (.malformed "opassign" (.unreadable t.kind))
  else if n.is "const_path_field" || n.is "top_const_field" then
    constantPath (n.is "top_const_field") inner ctx n
  else throw (.malformed "opassign" (.unexpectedTarget n.tag))

/-- `a[b] += c`. -/
def elementOperation (operator : String) (value : Form) : Rule := fun inner ctx n => do
  let receiver ← inner ctx (← n.nodeAt 0)
  let args ← arguments inner ctx (n.slot 1)
  return .of "op_asgn1"
    [receiver.toItem, (Form.group "arglist" args).toItem, .sym operator, value.toItem]

/-- `a.b += c`. -/
def attributeOperation (operator : String) (value : Form) : Rule := fun inner ctx n => do
  let receiver ← inner ctx (← n.nodeAt 0)
  let method ← name (n.slot 2)
  let tag := if isSafeNavigation (n.slot 1) then "safe_op_asgn2" else "op_asgn2"
  return .of tag [receiver.toItem, .sym (method ++ "="), .sym operator, value.toItem]

/-- `a += b` for a variable or a constant. -/
def variableOperation (operator : String) (value : Form) : Rule := fun inner ctx n => do
  let read ← readTarget inner ctx n
  if operator == "||" then
    return .of "op_asgn_or" [read.toItem, (← assign inner ctx (some value) n).toItem]
  else if operator == "&&" then
    return .of "op_asgn_and" [read.toItem, (← assign inner ctx (some value) n).toItem]
  else
    let call := (Form.of "call" [read.toItem, .sym operator, value.toItem]).withLine read.line
    assign inner ctx (some call) n

/-- `a += b`. -/
def operatorAssignRule : Rule := fun inner ctx n => do
  let left ← n.nodeAt 0
  let operator ← name (n.slot 1)
  let operator := withoutEquals operator
  let value ← inner ctx (← n.nodeAt 2)
  if left.is "aref_field" then elementOperation operator value inner ctx left
  else if left.is "field" then attributeOperation operator value inner ctx left
  else variableOperation operator value inner ctx left

end RubyNormalForm.Rules
