import RubyNormalForm.Rules.Argument
import RubyNormalForm.Rules.Target

/-!
# Arrays, hashes and ranges
-/

namespace RubyNormalForm.Rules

/-- An array, or a word list inside one. -/
def arrayRule : Rule := fun inner ctx n =>
  match n.slot 0 with
  | .node tag children =>
    if tag == Raw.listTag then (arguments inner ctx (.node tag children)).map array
    else inner ctx ⟨tag, children⟩
  | other => (arguments inner ctx other).map array

/-- The key and the value of a pair, or an entry that is not a pair. -/
def hashEntry (inner : Normalizer) (ctx : Context) (n : Raw.Node) : Result (List Item) := do
  if n.is "assoc_new" then
    let key ← inner ctx (← n.nodeAt 0)
    let value ← value? inner ctx (n.slot 1)
    return [key.toItem, Form.itemOf value]
  else
    let form ← inner ctx n
    return [form.toItem]

/-- The items of a hash: keys and values in turn. -/
def hashItems (inner : Normalizer) (ctx : Context) : List Raw.Node → Result (List Item)
  | [] => .ok []
  | n :: rest => do
    let first ← hashEntry inner ctx n
    let others ← hashItems inner ctx rest
    return first ++ others

/-- A hash, or keyword arguments. -/
def hashRule : Rule := fun inner ctx n => do
  return .of "hash" (← hashItems inner ctx (← n.nodesFrom 0))

/-- The value of an integer literal. -/
def integerLiteral? : Option Form → Option Int
  | some f =>
    match f.is "lit", f.items.head? with
    | true, some (.int n) => some n
    | _, _ => none
  | none => none

/-- A range between two normal forms. Two integers form a range literal. -/
def range (exclusive : Bool) (first last : Option Form) : Form :=
  match integerLiteral? first, integerLiteral? last with
  | some start, some stop =>
    (Form.of "lit" [.range start stop exclusive]).withLine (first.bind Form.line)
  | _, _ => .of (if exclusive then "dot3" else "dot2") [Form.itemOf first, Form.itemOf last]

/-- `a..b` and `a...b`. -/
def rangeRule (exclusive : Bool) : Rule := fun inner ctx n => do
  let first ← value? inner ctx (n.slot 0)
  let last ← value? inner ctx (n.slot 1)
  return range exclusive first last

end RubyNormalForm.Rules
