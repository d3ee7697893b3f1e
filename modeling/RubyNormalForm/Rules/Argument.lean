import RubyNormalForm.Rules.Basic

/-!
# Arguments

Argument lists become the normal forms of their entries in source order. Splats, keyword
arguments and block arguments are ordinary entries.
-/

namespace RubyNormalForm.Rules

/-- What stands inside any number of argument parentheses. -/
def insideParens (child : Raw) : Raw :=
  match child with
  | .node tag children =>
    if tag == "arg_paren" then insideParens ((Raw.Node.mk tag children).slot 0) else child
  | other => other
termination_by child.size
decreasing_by
  have := Raw.Node.size_slot_lt ⟨tag, children⟩ 0
  simpa [Raw.size, Raw.Node.size] using this

/-- The entries of a list that has no parentheses around it. -/
def entries (inner : Normalizer) (ctx : Context) (child : Raw) : Result (List Form) :=
  match child with
  | .node tag children =>
    if tag == Raw.listTag then values inner ctx children
    else (inner ctx ⟨tag, children⟩).map ([·])
  | other =>
    if other.isAbsent then .ok [] else .error (.malformed "args" (.expected .arguments other))

/-- The arguments of a call. -/
def arguments (inner : Normalizer) (ctx : Context) (child : Raw) : Result (List Form) :=
  entries inner ctx (insideParens child)

/-- The value of a jump: a lone argument stands for itself, several form an array. -/
def jumpValue : List Form → Option Form
  | [] => none
  | [arg] => some (if arg.is "splat" then .of "svalue" [arg.toItem] else arg)
  | args => some (.group "array" args)

/-- `return`, `break` and `next` with their values. -/
def jump (tag : String) : Rule := fun inner ctx n => do
  let args ← arguments inner ctx (n.slot 0)
  return (Form.of tag []).push? (jumpValue args)

/-- A node that stands for itself. -/
def constant (tag : String) : Rule := fun _ _ _ =>
  .ok (.of tag [])

/-- A marked argument, such as `*args`; its value may be missing. -/
def marked (tag : String) : Rule := fun inner ctx n => do
  let value ← value? inner ctx (n.slot 0)
  return (Form.of tag []).push? value

end RubyNormalForm.Rules
