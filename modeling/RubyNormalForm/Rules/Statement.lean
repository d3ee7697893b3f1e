import RubyNormalForm.Rules.Target

/-!
# Statements and bodies

A body is a sequence of statements: none at all, one that stands alone, or several in a
`block`. A body with clauses becomes a single `rescue` node around its statements, and an
`ensure` clause wraps that once more. Rescue clauses come as a chain in which each holds the
next; in the normal form they stand side by side.
-/

namespace RubyNormalForm.Rules

/-- Several statements as one node, which begins where the first one does. -/
def block (statements : List Form) : Form :=
  (Form.group "block" statements).withLine (statements.head?.bind Form.line)

/-- Statements as a body. -/
def wrap : List Form → Option Form
  | [] => none
  | [statement] => some statement
  | statements => some (block statements)

/-- A body that may not be missing: `nil` stands for an empty one. -/
def wrapOrNil (statements : List Form) : Form :=
  (wrap statements).getD (.of "nil" [])

/-- Statements after a header, or a single `nil` if there are none. -/
def statementItems (statements : List Form) : List Item :=
  if statements.isEmpty then [.nil] else statements.map Form.toItem

/-- The statements of a list, empty and absent ones apart. -/
def listed (inner : Normalizer) (ctx : Context) : List Raw → Result (List Form)
  | [] => .ok []
  | child :: rest =>
    match child with
    | .node tag children =>
      if tag == "void_stmt" then listed inner ctx rest
      else do
        let form ← inner ctx ⟨tag, children⟩
        let forms ← listed inner ctx rest
        return form :: forms
    | other =>
      if other.isAbsent then listed inner ctx rest
      else .error (.malformed "stmts" (.expected .statement other))

/-- The statements of a child. A body with clauses is given by `body`; any other node that
is not a list is a statement by itself. -/
def statementsWith (inner : Normalizer) (ctx : Context) (body : Raw.Node → Result (List Form))
    (child : Raw) : Result (List Form) :=
  match child with
  | .node tag children =>
    let n : Raw.Node := ⟨tag, children⟩
    if n.is "bodystmt" then body n
    else if n.is "void_stmt" then .ok []
    else if n.isStatements then listed inner ctx children
    else (inner ctx n).map ([·])
  | other =>
    if other.isAbsent then .ok []
    else .error (.malformed "stmts" (.expected .statements other))

/-- What an `else` clause holds; any other child stands for itself. -/
def insideElse (child : Raw) : Raw :=
  match child with
  | .node tag children => if tag == "else" then (Raw.Node.mk tag children).slot 0 else child
  | other => other

/-- What an `ensure` clause holds; any other node stands for itself. -/
def insideEnsure (n : Raw.Node) : Raw :=
  if n.is "ensure" then n.slot 0 else n.toRaw

/-- A rescue clause and the clauses chained to it. -/
def rescueChain (n : Raw.Node) : List Raw.Node :=
  n :: match _h : (n.slot 3).node? with
    | some next => rescueChain next
    | none => []
termination_by n.size
decreasing_by
  rw [Raw.Node.size_of_node? _h]
  exact Raw.Node.size_slot_lt n 3

/-- The read of the exception that a rescue clause binds. -/
def currentException : Form :=
  .of "gvar" [.sym "$!"]

/-- One rescue clause: the classes it handles, the variable it binds, and its statements. -/
def rescueClause (inner : Normalizer) (ctx : Context) (statements : Raw → Result (List Form))
    (n : Raw.Node) : Result Form := do
  let bound ← n.nodeAt? 1
  let _ ← n.nodeAt? 3
  let classes ← arguments inner ctx (n.slot 0)
  let binding ← match bound with
    | some v => (assign inner ctx (some currentException) v).map ([·])
    | none => .ok []
  let body ← statements (n.slot 2)
  return (Form.of "resbody" ((array (classes ++ binding)).toItem :: statementItems body)).withLine
    (ctx.lineOf n)

/-- Rescue clauses in order. -/
def rescueClauses (inner : Normalizer) (ctx : Context) (statements : Raw → Result (List Form)) :
    List Raw.Node → Result (List Form)
  | [] => .ok []
  | n :: rest => do
    let form ← rescueClause inner ctx statements n
    let forms ← rescueClauses inner ctx statements rest
    return form :: forms

/-- The statements of a body with clauses, given those of smaller bodies. -/
def bodyStep (inner : Normalizer) (ctx : Context) (body : Raw.Node → Result (List Form))
    (n : Raw.Node) : Result (List Form) := do
  let statements := statementsWith inner ctx body
  let main ← statements (n.slot 0)
  let rescue? ← n.nodeAt? 1
  let ensure? ← n.nodeAt? 3
  let otherwise ← statements (insideElse (n.slot 2))
  let guarded ← match rescue? with
    | some first => do
      let clauses ← rescueClauses inner ctx statements (rescueChain first)
      let parts := (wrap main).toList ++ clauses ++ (wrap otherwise).toList
      pure [(Form.group "rescue" parts).raiseLines]
    | none => pure (main ++ otherwise)
  match ensure? with
  | some clause =>
    let final ← statements (insideEnsure clause)
    return [(Form.group "ensure" ((wrap guarded).toList ++ [wrapOrNil final])).raiseLines]
  | none => return guarded

/-- The statements of a body with clauses. -/
def bodyStatements (inner : Normalizer) (ctx : Context) (n : Raw.Node) : Result (List Form) :=
  n.bySize (fun m => .error (.unsupported m.tag none)) (bodyStep inner ctx)

/-- The statements of a child. -/
def statements (inner : Normalizer) (ctx : Context) (child : Raw) : Result (List Form) :=
  statementsWith inner ctx (bodyStatements inner ctx) child

/-- A child as a body. -/
def body (inner : Normalizer) (ctx : Context) (child : Raw) : Result (Option Form) :=
  (statements inner ctx child).map wrap

/-- An `else` clause, or what stands in its place, as a body. -/
def elseBody (inner : Normalizer) (ctx : Context) (child : Raw) : Result (Option Form) :=
  body inner ctx (insideElse child)

/-- Nodes that only hold a body: a list of statements, or `begin` and `end`. -/
def bodyRule : Rule := fun inner ctx n =>
  (statements inner ctx (n.slot 0)).map wrapOrNil

/-- A list of statements reached by itself. -/
def sequenceRule : Rule := fun inner ctx n =>
  (statements inner ctx n.toRaw).map wrapOrNil

/-- A statement with a fallback, `a rescue b`. -/
def fallbackRule : Rule := fun inner ctx n => do
  let expr ← inner ctx (← n.nodeAt 0)
  let fallback ← inner ctx (← n.nodeAt 1)
  let clause := (Form.of "resbody" [(array []).toItem, fallback.toItem]).withLine expr.line
  return .of "rescue" [expr.toItem, clause.toItem]

end RubyNormalForm.Rules
