import RubyNormalForm.Rules.Condition

/-!
# Operators

Most operators are calls. Boolean chains nest to the right, a match against a regular
expression has a form of its own, a negated match is the negation of a match, and a minus
sign before a number belongs to the number.
-/

namespace RubyNormalForm.Rules

/-- Joins a boolean chain of the given kind with one more operand, so that the whole nests to
the right. -/
def chain (tag : String) (right : Form) : Item → Form
  | .node leftTag items line comments =>
    let plain := Form.of tag [.node leftTag items line comments, right.toItem]
    if leftTag == tag then
      match items with
      | [first, second] =>
        match second with
        | .node _ _ _ _ =>
          (Form.of tag [first, (chain tag right second).toItem]).withLine line
        | other =>
          .of tag [((Form.of tag [first, other]).withLine line).toItem, right.toItem]
      | _ => plain
    else plain
  | other => .of tag [other, right.toItem]

/-- A boolean operator. A left operand in parentheses is kept as one operand. -/
def boolean (tag : String) (grouped : Bool) (left right : Form) : Form :=
  if grouped then .of tag [left.toItem, right.toItem] else chain tag right left.toItem

/-- A binary operator between two normal forms. -/
def binary (operator : String) (grouped : Bool) (left right : Form) : Form :=
  if operator == "&&" || operator == "and" then boolean "and" grouped left right
  else if operator == "||" || operator == "or" then boolean "or" grouped left right
  else if operator == "=~" && isRegexp left then .of "match2" [left.toItem, right.toItem]
  else if operator == "=~" && isRegexp right then .of "match3" [right.toItem, left.toItem]
  else if operator == "!~" then
    let call := (Form.of "call" [left.toItem, .sym "=~", right.toItem]).withLine left.line
    .of "not" [call.toItem]
  else .of "call" [left.toItem, .sym operator, right.toItem]

/-- `a + b`. -/
def binaryRule : Rule := fun inner ctx n => do
  let leftNode ← n.nodeAt 0
  let left ← inner ctx leftNode
  let operator ← name (n.slot 1)
  let right ← inner ctx (← n.nodeAt 2)
  return binary operator (leftNode.is "paren") left right

/-- A text with its leading minus sign dropped, or with one put before it. -/
def toggleMinus (digits : String) : String :=
  match digits.toList with
  | '-' :: rest => String.ofList rest
  | _ => "-" ++ digits

/-- A number with the opposite sign; `none` for an item that is not a number. -/
def negated? : Item → Option Item
  | .int n => some (.int (Number.opposite128 n))
  | .bigInt digits => some (.bigInt (toggleMinus digits))
  | .float x => some (.float x.neg)
  | .rational text =>
    match text.toList with
    | '(' :: rest => some (.rational ("(-" ++ String.ofList rest))
    | _ => some (.rational ("-" ++ text))
  | .imaginary text =>
    match text.toList with
    | '(' :: '0' :: '+' :: rest => some (.imaginary ("(0-" ++ String.ofList rest))
    | _ => some (.imaginary text)
  | _ => none

/-- A literal number with the opposite sign; `none` for any other node. -/
def negatedLiteral? (f : Form) : Option Form :=
  match f.is "lit", f.items with
  | true, item :: rest => (negated? item).map fun negated => { f with items := negated :: rest }
  | _, _ => none

/-- A unary operator before an operand, which may be missing. -/
def unary (operator : String) (operand : Option Form) : Form :=
  let call (method : String) := Form.of "call" [Form.itemOf operand, .sym method]
  if operator == "!" || operator == "not" then call "!"
  else if operator == "-@" then (operand.bind negatedLiteral?).getD (call operator)
  else call operator

/-- `-a`. -/
def unaryRule : Rule := fun inner ctx n => do
  let operator ← name (n.slot 0)
  let operand ← value? inner ctx (n.slot 1)
  return unary operator operand

/-- `defined?(a)`. -/
def definedRule : Rule := fun inner ctx n => do
  let expr ← value? inner ctx (n.slot 0)
  return .of "defined" [Form.itemOf expr]

end RubyNormalForm.Rules
