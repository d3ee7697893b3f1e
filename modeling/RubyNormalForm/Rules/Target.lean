import RubyNormalForm.Rules.Argument

/-!
# Assignment targets

The left side of an assignment becomes the assignment itself: the node for the target, with
the value as its last item. Without a value it is the bare target that multiple assignments,
loops and rescue clauses hold.
-/

namespace RubyNormalForm.Rules

/-- An array of the given nodes. -/
def array (forms : List Form) : Form :=
  .group "array" forms

/-- The tag of an assignment to a token of the given kind. A class variable is declared
unless the assignment is in a method. -/
def assignmentTag? (ctx : Context) (kind : String) : Option String :=
  if kind == "ident" then some "lasgn"
  else if kind == "ivar" then some "iasgn"
  else if kind == "gvar" then some "gasgn"
  else if kind == "cvar" then some (if ctx.inMethodBody then "cvasgn" else "cvdecl")
  else if kind == "const" then some "cdecl"
  else none

/-- A token as a target. -/
def tokenTarget (ctx : Context) (n : Raw.Node) : Result Form := do
  let t ← token n
  match assignmentTag? ctx t.kind with
  | some tag => return (Form.of tag [.sym t.text]).withLine (some (ctx.line t.line))
  | none => throw (.malformed "assign" (.unassignable t.kind))

/-- `a.b` as a target. -/
def attributeTarget : Rule := fun inner ctx n => do
  let receiver ← inner ctx (← n.nodeAt 0)
  let method ← name (n.slot 2)
  let tag := if isSafeNavigation (n.slot 1) then "safe_attrasgn" else "attrasgn"
  return .of tag [receiver.toItem, .sym (method ++ "=")]

/-- `a[i]` as a target. -/
def elementTarget : Rule := fun inner ctx n => do
  let receiver ← inner ctx (← n.nodeAt 0)
  let args ← arguments inner ctx (n.slot 1)
  return (Form.of "attrasgn" [receiver.toItem, .sym "[]="]).pushAll args

/-- `A::B` or `::A`, read or assigned to. -/
def constantPath (top : Bool) : Rule := fun inner ctx n => do
  if top then
    return .of "colon3" [.sym (← name (n.slot 0))]
  else
    let scope ← inner ctx (← n.nodeAt 0)
    return .of "colon2" [scope.toItem, .sym (← name (n.slot 1))]

/-- The targets that can take a value and hold no further target. -/
def leafTarget : Rule := fun inner ctx n =>
  if n.isToken then tokenTarget ctx n
  else if n.is "field" then attributeTarget inner ctx n
  else if n.is "aref_field" then elementTarget inner ctx n
  else if n.is "const_path_field" || n.is "top_const_field" then do
    let path ← constantPath (n.is "top_const_field") inner ctx n
    return .of "cdecl" [path.toItem]
  else .error (.malformed "assign" (.unexpectedAssignmentTarget n.tag))

/-- An assignment with its value, if it has one. -/
def assigned (value : Option Form) (target : Form) : Form :=
  target.push? value

/-- Whether a tag marks the target that takes what is left over. -/
def isRestTag (tag : String) : Bool :=
  tag == "star" || tag == "rest_param"

mutual

/-- The assignment of a value to a target, or the bare target. Only targets that are not
lists or splats take the value. -/
def target (inner : Normalizer) (ctx : Context) (value : Option Form) : Raw → Result Form
  | .node tag children =>
    if tag == "var_field" then
      match children with
      | [] => .error (.malformed tag .assignmentToNothing)
      | child :: _ =>
        if child.isAbsent then .error (.malformed tag .assignmentToNothing)
        else if child.node?.isNone then .error (.malformed tag (.expected .nodeOrNil child))
        else target inner ctx value child
    else if tag == "mlhs" then do
      let inside ← targets inner ctx children
      return .of "masgn" [(array inside).toItem]
    else if isRestTag tag then
      match children with
      | [] => .ok (.of "splat" [])
      | child :: _ =>
        if child.isAbsent then .ok (.of "splat" [])
        else if child.node?.isNone then .error (.malformed tag (.expected .nodeOrNil child))
        else do
          let inside ← target inner ctx none child
          return .of "splat" [inside.toItem]
    else (leafTarget inner ctx ⟨tag, children⟩).map (assigned value)
  | other => .error (.malformed "mlhs" (.misplaced .target other))

/-- The bare targets of a list, absent entries apart. -/
def targets (inner : Normalizer) (ctx : Context) : List Raw → Result (List Form)
  | [] => .ok []
  | child :: rest =>
    if child.isAbsent then targets inner ctx rest
    else do
      let form ← target inner ctx none child
      let forms ← targets inner ctx rest
      return form :: forms

end

/-- The assignment of a value to a node. -/
def assign (inner : Normalizer) (ctx : Context) (value : Option Form) (n : Raw.Node) :
    Result Form :=
  target inner ctx value n.toRaw

/-- Whether a node is a list of targets. -/
def isTargetList (n : Raw.Node) : Bool :=
  n.isList || n.is "mlhs"

/-- The bare targets of the left side of a multiple assignment. -/
def leftSide (inner : Normalizer) (ctx : Context) (n : Raw.Node) : Result (List Form) :=
  if isTargetList n then targets inner ctx n.children
  else (assign inner ctx none n).map ([·])

/-- The variable of a loop: a bare target, or several that are taken apart. -/
def loopVariable (inner : Normalizer) (ctx : Context) (n : Raw.Node) : Result Form := do
  if isTargetList n then
    return .of "masgn" [(array (← leftSide inner ctx n)).toItem]
  else assign inner ctx none n

end RubyNormalForm.Rules
