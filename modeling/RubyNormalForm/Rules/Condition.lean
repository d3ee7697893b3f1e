import RubyNormalForm.Rules.Statement

/-!
# Conditions, branches and loops

Every conditional becomes `(if, condition, then, else)` and every conditional loop
`(while | until, condition, body, check first)`. A condition that is a negated match is
replaced by the positive match, with the branches exchanged or the loop keyword reversed.
A bare range as a condition is a flip-flop, except after `elsif` and in `a ? b : c`. A
regular expression as a condition is matched against the last line read.
-/

namespace RubyNormalForm.Rules

/-- Whether a node is a regular expression. -/
def isRegexp (f : Form) : Bool :=
  if f.is "lit" then
    match f.items.head? with
    | some (.regexp _) => true
    | _ => false
  else f.is "dregx" || f.is "dregx_once"

/-- A condition. If it is negated, the expression is what it negates. -/
structure Condition where
  expr : Form
  negated : Bool

/-- Takes a negation off an expression, and makes a regular expression a match. -/
def Condition.ofForm (expr : Form) : Condition :=
  match expr.is "not", expr.items with
  | true, [.node tag items line comments] =>
    ⟨(Form.mk tag items line comments).withLine expr.line, true⟩
  | true, [_] => ⟨(Form.of "not" []).withLine expr.line, false⟩
  | _, _ =>
    if isRegexp expr then ⟨(Form.of "match" [expr.toItem]).withLine expr.line, false⟩
    else ⟨expr, false⟩

/-- The node that a condition is read from: a range that is the only thing inside
parentheses or `begin` and `end` is taken out of them. -/
def conditionNode (n : Raw.Node) : Raw.Node :=
  match n.unwrap? with
  | some m => if m.isRange then m else n
  | none => n

/-- The expression of a condition. -/
def conditionForm (inner : Normalizer) (ctx : Context) (flipFlop : Bool) (n : Raw.Node) :
    Result Form := do
  if flipFlop && n.isRange then
    let first ← value? inner ctx (n.slot 0)
    let last ← value? inner ctx (n.slot 1)
    return .of (if n.is "dot2" then "flip2" else "flip3") [Form.itemOf first, Form.itemOf last]
  else inner ctx n

/-- A node as a condition. -/
def condition (inner : Normalizer) (ctx : Context) (flipFlop : Bool) (n : Raw.Node) :
    Result Condition :=
  (conditionForm inner ctx flipFlop (conditionNode n)).map Condition.ofForm

/-- A conditional; the branches are exchanged if just one of `swap` and the condition asks
for it. -/
def branch (c : Condition) (swap : Bool) (yes no : Option Form) : Form :=
  if swap != c.negated then .of "if" [c.expr.toItem, Form.itemOf no, Form.itemOf yes]
  else .of "if" [c.expr.toItem, Form.itemOf yes, Form.itemOf no]

/-- What follows the first branch: a further condition, an `else` clause or nothing. -/
def otherwise (inner : Normalizer) (ctx : Context) (child : Raw) : Result (Option Form) :=
  match child with
  | .node tag children =>
    if tag == "elsif" then (inner ctx ⟨tag, children⟩).map some else elseBody inner ctx child
  | other => elseBody inner ctx other

/-- `if`, `unless` and `elsif`. -/
def conditional (flipFlop swap : Bool) : Rule := fun inner ctx n => do
  let c ← condition inner ctx flipFlop (← n.nodeAt 0)
  let yes ← body inner ctx (n.slot 1)
  let no ← otherwise inner ctx (n.slot 2)
  return branch c swap yes no

/-- A statement before `if` or `unless`. -/
def modifier (swap : Bool) : Rule := fun inner ctx n => do
  let c ← condition inner ctx true (← n.nodeAt 0)
  let statement ← value? inner ctx (n.slot 1)
  return branch c swap statement none

/-- `a ? b : c`. -/
def ternary : Rule := fun inner ctx n => do
  let c ← condition inner ctx false (← n.nodeAt 0)
  let yes ← value? inner ctx (n.slot 1)
  let no ← value? inner ctx (n.slot 2)
  return branch c false yes no

/-- The keyword of a loop with the given condition. -/
def loopTag (isUntil : Bool) (c : Condition) : String :=
  if isUntil != c.negated then "until" else "while"

/-- `while` and `until` before a body. -/
def loop (isUntil : Bool) : Rule := fun inner ctx n => do
  let c ← condition inner ctx true (← n.nodeAt 0)
  let inside ← body inner ctx (n.slot 1)
  return .of (loopTag isUntil c) [c.expr.toItem, Form.itemOf inside, .bool true]

/-- A statement before `while` or `until`. Only a `begin` block runs before the first test. -/
def postfixLoop (isUntil : Bool) : Rule := fun inner ctx n => do
  let c ← condition inner ctx true (← n.nodeAt 0)
  let statement ← n.nodeAt 1
  let inside ← inner ctx statement
  return .of (loopTag isUntil c) [c.expr.toItem, inside.toItem, .bool (!statement.is "begin")]

/-- `for a in b`; an empty body is left out. -/
def forLoop : Rule := fun inner ctx n => do
  let target ← loopVariable inner ctx (← n.nodeAt 0)
  let range ← inner ctx (← n.nodeAt 1)
  let inside ← body inner ctx (n.slot 2)
  return (Form.of "for" [range.toItem, target.toItem]).push? inside

/-- The clauses of a `case` from the given one on, and the node that ends their chain. -/
def whenChain (n : Raw.Node) : List Raw.Node × Option Raw.Node :=
  if n.is "when" then
    match _h : (n.slot 2).node? with
    | some next => match whenChain next with | (clauses, last) => (n :: clauses, last)
    | none => ([n], none)
  else ([], some n)
termination_by n.size
decreasing_by
  rw [Raw.Node.size_of_node? _h]
  exact Raw.Node.size_slot_lt n 2

/-- One clause of a `case`: its tests and its statements. -/
def whenClause : Rule := fun inner ctx n => do
  let tests ← arguments inner ctx (n.slot 0)
  let inside ← statements inner ctx (n.slot 1)
  let _ ← n.nodeAt? 2
  return (Form.of "when" ((array tests).toItem :: statementItems inside)).withLine (ctx.lineOf n)

/-- The clauses of a `case` in order. -/
def whenClauses (inner : Normalizer) (ctx : Context) : List Raw.Node → Result (List Form)
  | [] => .ok []
  | n :: rest => do
    let form ← whenClause inner ctx n
    let forms ← whenClauses inner ctx rest
    return form :: forms

/-- `case`: the subject, the clauses, and what is left otherwise. -/
def caseRule : Rule := fun inner ctx n => do
  let subject ← value? inner ctx (n.slot 0)
  let chain := match ← n.nodeAt? 1 with
    | some first => whenChain first
    | none => ([], none)
  let clauses ← whenClauses inner ctx chain.1
  let last ← match chain.2 with
    | some clause => elseBody inner ctx clause.toRaw
    | none => .ok none
  return ((Form.of "case" [Form.itemOf subject]).pushAll clauses).push (Form.itemOf last)

end RubyNormalForm.Rules
