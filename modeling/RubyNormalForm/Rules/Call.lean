import RubyNormalForm.Rules.Parameter

/-!
# Calls

A call becomes `(call, receiver, name, argument …)`, or `safe_call` after `&.`. A call with
a block becomes `(iter, call, parameters, body)`, where the parameters are `0` if the block
has no parameter section at all.
-/

namespace RubyNormalForm.Rules

/-- The tag of a call with the given call operator. -/
def callTag (operator : Raw) : String :=
  if isSafeNavigation operator then "safe_call" else "call"

/-- `a.b`. -/
def callRule : Rule := fun inner ctx n => do
  let receiver ← value? inner ctx (n.slot 0)
  let method ← name (n.slot 2)
  return .of (callTag (n.slot 1)) [Form.itemOf receiver, .sym method]

/-- `a` without a receiver. -/
def bareCallRule : Rule := fun _ ctx n => do
  let method ← name (n.slot 0)
  return (Form.of "call" [.nil, .sym method]).withLine (ctx.lineOf n)

/-- `a b, c`. -/
def commandRule : Rule := fun inner ctx n => do
  let call ← bareCallRule inner ctx n
  return call.pushAll (← arguments inner ctx (n.slot 1))

/-- `a.b c, d`. -/
def commandCallRule : Rule := fun inner ctx n => do
  let call ← callRule inner ctx n
  return call.pushAll (← arguments inner ctx (n.slot 3))

/-- A call with arguments in parentheses. -/
def argumentsRule : Rule := fun inner ctx n => do
  let call ← inner ctx (← n.nodeAt 0)
  return call.pushAll (← arguments inner ctx (n.slot 1))

/-- `a[b]`. -/
def elementRule : Rule := fun inner ctx n => do
  let receiver ← inner ctx (← n.nodeAt 0)
  let args ← arguments inner ctx (n.slot 1)
  return (Form.of "call" [receiver.toItem, .sym "[]"]).pushAll args

/-- `super(a)`. -/
def superRule : Rule := fun inner ctx n => do
  return (Form.of "super" []).pushAll (← arguments inner ctx (n.slot 0))

/-- What `yield` takes its arguments from: the inside of one pair of parentheses. -/
def yieldArguments (child : Raw) : Raw :=
  match child with
  | .node tag children => if tag == "paren" then (Raw.Node.mk tag children).slot 0 else child
  | other => other

/-- `yield a`. -/
def yieldRule : Rule := fun inner ctx n => do
  return (Form.of "yield" []).pushAll (← arguments inner ctx (yieldArguments (n.slot 0)))

/-- A call with its block. -/
def iteration (call : Form) (parameters : Item) (inside : Option Form) : Form :=
  (Form.of "iter" [call.toItem, parameters]).push? inside

/-- The parameter slot of a call whose block has no parameter section. -/
def noParameters : Item := .int 0

/-- The parameter slot for the parameters of a block. An empty section is written anew. -/
def parameterSlot (args : Form) : Item :=
  if args.items.isEmpty then (Form.of "args" []).toItem else args.toItem

/-- The parameter slot of a block. -/
def blockSlot (inner : Normalizer) (ctx : Context) (child : Raw) : Result Item :=
  match child with
  | .node tag children => (blockParameters inner ctx ⟨tag, children⟩).map parameterSlot
  | _ => .ok noParameters

/-- The parameter slot of a lambda. Without parentheses, an empty section is no section. -/
def lambdaSlot (inner : Normalizer) (ctx : Context) (child : Raw) : Result Item :=
  match child with
  | .node tag children =>
    if tag == "paren" then (methodParameters inner ctx child).map parameterSlot
    else do
      let args ← blockParameters inner ctx ⟨tag, children⟩
      return if args.items.isEmpty then noParameters else args.toItem
  | _ => .ok noParameters

/-- A call followed by a block. -/
def blockCallRule : Rule := fun inner ctx n => do
  let call ← inner ctx (← n.nodeAt 0)
  let block ← n.nodeAt 1
  let parameters ← blockSlot inner ctx (block.slot 0)
  let inside ← body inner ctx (block.slot 1)
  return iteration call parameters inside

/-- A lambda literal. -/
def lambdaRule : Rule := fun inner ctx n => do
  let parameters ← lambdaSlot inner ctx (n.slot 0)
  let inside ← body inner ctx (n.slot 1)
  return iteration ((Form.of "lambda" []).withLine (ctx.lineOf n)) parameters inside

/-- A block that runs when the program begins or ends. -/
def hookRule (tag : String) : Rule := fun inner ctx n => do
  let inside ← body inner ctx (n.slot 0)
  return iteration ((Form.of tag []).withLine (ctx.lineOf n)) noParameters inside

end RubyNormalForm.Rules
