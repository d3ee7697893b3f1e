import RubyNormalForm.Rules.Statement

/-!
# Parameters

A parameter list has seven slots: required, optional, rest, required after the rest,
keywords, keyword rest and block. The normal form lists the parameters in that order, with
a sigil before the names that take several arguments or a block.
-/

namespace RubyNormalForm.Rules

/-- What stands inside any number of parentheses. -/
def insideParentheses (child : Raw) : Raw :=
  match child with
  | .node tag children =>
    if tag == "paren" then insideParentheses ((Raw.Node.mk tag children).slot 0) else child
  | other => other
termination_by child.size
decreasing_by
  have := Raw.Node.size_slot_lt ⟨tag, children⟩ 0
  simpa [Raw.size, Raw.Node.size] using this

/-- A parameter with a sigil; the sigil alone if it has no name. -/
def sigilParameter (sigil : String) : Raw → Result Item
  | .node tag children =>
    if tag == "var_field" then
      match children with
      | [] => .ok (.sym sigil)
      | child :: _ => sigilParameter sigil child
    else do
      return .sym (sigil ++ (← tokenText ⟨tag, children⟩))
  | other =>
    if other.isAbsent then .ok (.sym sigil)
    else .error (.malformed "params" (.misplaced .parameter other))

mutual

/-- A required parameter: a name, or several that are taken apart. -/
def requiredParameter : Raw → Result Item
  | .node tag children =>
    if tag == "mlhs" then do
      let items ← requiredParameters children
      return (Form.of "masgn" items).toItem
    else if isRestTag tag then
      match children with
      | [] => .ok (.sym "*")
      | child :: _ => sigilParameter "*" child
    else if tag == "var_field" then
      match children with
      | [] => .error (.malformed tag (.expected .node .nil))
      | child :: _ =>
        if child.node?.isNone then .error (.malformed tag (.expected .node child))
        else requiredParameter child
    else do
      return .sym (← tokenText ⟨tag, children⟩)
  | other => .error (.malformed "mlhs" (.misplaced .parameter other))

/-- The required parameters of a list, absent entries apart. -/
def requiredParameters : List Raw → Result (List Item)
  | [] => .ok []
  | child :: rest =>
    if child.isAbsent then requiredParameters rest
    else do
      let item ← requiredParameter child
      let items ← requiredParameters rest
      return item :: items

end

/-- The required parameters of a slot. -/
def requiredSlot (child : Raw) : Result (List Item) := do
  requiredParameters ((← listNodes child).map Raw.Node.toRaw)

/-- An optional parameter with its default. -/
def optionalParameter (inner : Normalizer) (ctx : Context) (pair : Raw.Node) : Result Item := do
  let parameter ← name (pair.slot 0)
  let default ← inner ctx (← pair.nodeAt 1)
  return (Form.of "lasgn" [.sym parameter, default.toItem]).toItem

/-- A name without the colons after it. -/
def withoutColons (text : String) : String :=
  String.ofList (text.toList.reverse.dropWhile (· == ':')).reverse

/-- A keyword parameter with its default, if it has one. -/
def keywordParameter (inner : Normalizer) (ctx : Context) (pair : Raw.Node) : Result Item := do
  let label ← name (pair.slot 0)
  let default ← value? inner ctx (pair.slot 1)
  return ((Form.of "kwarg" [.sym (withoutColons label)]).push? default).toItem

/-- The parameters of several pairs in order. -/
def pairParameters (parameter : Raw.Node → Result Item) : List Raw.Node → Result (List Item)
  | [] => .ok []
  | pair :: rest => do
    let item ← parameter pair
    let items ← pairParameters parameter rest
    return item :: items

/-- The rest parameter. -/
def restParameter (child : Raw) : Result (List Item) :=
  match child with
  | .node tag children =>
    if tag == "rest_param" then
      (sigilParameter "*" ((Raw.Node.mk tag children).slot 0)).map ([·])
    else if tag == "args_forward" then .ok [(Form.of "forward_args" []).toItem]
    else .ok []
  | _ => .ok []

/-- Whether the rest slot stands for a comma after the last parameter. -/
def isTrailingComma : Raw → Bool
  | .node tag _ => tag == "excessed_comma"
  | .int _ => true
  | _ => false

/-- The keyword rest parameter. -/
def keywordRestParameter (child : Raw) : Result (List Item) :=
  match child with
  | .node tag children =>
    if tag == "kwrest_param" then
      (sigilParameter "**" ((Raw.Node.mk tag children).slot 0)).map ([·])
    else if tag == "args_forward" then .ok [(Form.of "forward_args" []).toItem]
    else .ok []
  | .sym word => .ok (if word == "nil" then [.sym "**nil"] else [])
  | _ => .ok []

/-- The block parameter. -/
def blockParameter (child : Raw) : Result (List Item) :=
  match child with
  | .node tag children => (sigilParameter "&" ((Raw.Node.mk tag children).slot 0)).map ([·])
  | _ => .ok []

/-- The parameters of the seven slots. -/
def parameterItems (inner : Normalizer) (ctx : Context) (n : Raw.Node) : Result (List Item) := do
  let required ← requiredSlot (n.slot 0)
  let optional ← pairParameters (optionalParameter inner ctx) (← listNodes (n.slot 1))
  let rest ← restParameter (n.slot 2)
  let post ← requiredSlot (n.slot 3)
  let keywords ← pairParameters (keywordParameter inner ctx) (← listNodes (n.slot 4))
  let keywordRest ← keywordRestParameter (n.slot 5)
  let block ← blockParameter (n.slot 6)
  let comma := if isTrailingComma (n.slot 2) then [Item.nil] else []
  return required ++ optional ++ rest ++ post ++ keywords ++ keywordRest ++ block ++ comma

/-- The parameters of a method. -/
def methodParameters (inner : Normalizer) (ctx : Context) (child : Raw) : Result Form :=
  let list := insideParentheses child
  let malformed := Except.error (.malformed "params" (.expected .parameterList list))
  match list with
  | .node tag children =>
    if tag == "params" then (parameterItems inner ctx ⟨tag, children⟩).map (Form.of "args")
    else malformed
  | other => if other.isAbsent then .ok (.of "args" []) else malformed

/-- The names of several tokens as symbols. -/
def symbolItems : List Raw.Node → Result (List Item)
  | [] => .ok []
  | n :: rest => do
    let text ← tokenText n
    let items ← symbolItems rest
    return .sym text :: items

/-- The parameters of a block, with its local variables after them if it has any. -/
def blockParameters (inner : Normalizer) (ctx : Context) (n : Raw.Node) : Result Form := do
  if n.is "block_var" then
    let args ← methodParameters inner ctx (n.slot 0)
    let locals ← listNodes (n.slot 1)
    if locals.isEmpty then return args
    else return args.push (Form.of "shadow" (← symbolItems locals)).toItem
  else methodParameters inner ctx n.toRaw

/-- A parameter list reached by itself. -/
def parametersRule : Rule := fun inner ctx n =>
  methodParameters inner ctx n.toRaw

/-- Parentheses: around parameters, or around a body. -/
def parenthesesRule : Rule := fun inner ctx n =>
  match n.slot 0 with
  | .node tag children =>
    if tag == "params" then methodParameters inner ctx (.node tag children)
    else bodyRule inner ctx n
  | _ => bodyRule inner ctx n

end RubyNormalForm.Rules
