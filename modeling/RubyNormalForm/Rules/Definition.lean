import RubyNormalForm.Rules.Parameter

/-!
# Definitions

Methods, classes and modules. Every definition carries the comments before it, which are
empty unless a comment node wraps it. The body of a method is never empty.
-/

namespace RubyNormalForm.Rules

/-- A definition without comments. -/
def definition (tag : String) (header : List Item) (body : List Form) : Form :=
  { tag := tag, items := header ++ body.map Form.toItem, comments := some "" }

/-- The body of a method; `nil` stands for an empty one. -/
def methodBody (inner : Normalizer) (ctx : Context) (child : Raw) : Result (List Form) := do
  let inside ← statements inner ctx.methodBody child
  return if inside.isEmpty then [.of "nil" []] else inside

/-- The body of a class or a module. -/
def scopeBody (inner : Normalizer) (ctx : Context) (child : Raw) : Result (List Form) :=
  statements inner ctx.scopeBody child

/-- `def a`. -/
def methodRule : Rule := fun inner ctx n => do
  let method ← name (n.slot 0)
  let args ← methodParameters inner ctx (n.slot 1)
  let inside ← methodBody inner ctx (n.slot 2)
  return definition "defn" [.sym method, args.toItem] inside

/-- `def a.b`. -/
def singletonMethodRule : Rule := fun inner ctx n => do
  let receiver ← inner ctx (← n.nodeAt 0)
  let method ← name (n.slot 2)
  let args ← methodParameters inner ctx (n.slot 3)
  let inside ← methodBody inner ctx (n.slot 4)
  return definition "defs" [receiver.toItem, .sym method, args.toItem] inside

/-- The name of a class or a module: a symbol, or a path. -/
def scopeName (inner : Normalizer) (ctx : Context) (n : Raw.Node) : Result Item := do
  if n.is "const_ref" then return .sym (← name (n.slot 0))
  else if n.is "@const" then return .sym (← tokenText n)
  else return (← inner ctx n).toItem

/-- `class A < B`. -/
def classRule : Rule := fun inner ctx n => do
  let path ← scopeName inner ctx (← n.nodeAt 0)
  let superclass ← value? inner ctx (n.slot 1)
  let inside ← scopeBody inner ctx (n.slot 2)
  return definition "class" [path, Form.itemOf superclass] inside

/-- `module A`. -/
def moduleRule : Rule := fun inner ctx n => do
  let path ← scopeName inner ctx (← n.nodeAt 0)
  let inside ← scopeBody inner ctx (n.slot 1)
  return definition "module" [path] inside

/-- `class << a`. -/
def singletonClassRule : Rule := fun inner ctx n => do
  let subject ← inner ctx (← n.nodeAt 0)
  let inside ← scopeBody inner ctx (n.slot 1)
  return definition "sclass" [subject.toItem] inside

/-- A definition with the comments before it. -/
def commentRule : Rule := fun inner ctx n => do
  let text ← n.stringAt 0
  let form ← inner ctx (← n.nodeAt 1)
  return { form with comments := some text }

/-- `alias a b`. -/
def aliasRule : Rule := fun inner ctx n => do
  let new ← inner ctx (← n.nodeAt 0)
  let old ← inner ctx (← n.nodeAt 1)
  return .of "alias" [new.toItem, old.toItem]

/-- `alias $a $b`. -/
def variableAliasRule : Rule := fun _ _ n => do
  let new ← tokenText (← n.nodeAt 0)
  let old ← tokenText (← n.nodeAt 1)
  return .of "valias" [.sym new, .sym old]

/-- One `undef` for each name. -/
def undefs (inner : Normalizer) (ctx : Context) : List Raw.Node → Result (List Form)
  | [] => .ok []
  | n :: rest => do
    let form ← inner ctx n
    let forms ← undefs inner ctx rest
    return (Form.of "undef" [form.toItem]).withLine (ctx.lineOf n) :: forms

/-- `undef a, b`. -/
def undefRule : Rule := fun inner ctx n => do
  match ← undefs inner ctx (← listNodes (n.slot 0)) with
  | [] => throw (.malformed "undef" .noMethodNames)
  | [one] => return one
  | several => return .group "block" several

end RubyNormalForm.Rules
