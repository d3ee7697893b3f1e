import RubyNormalForm.Number.Inspect
import RubyNormalForm.Symbol
import RubyNormalForm.Tree.Basic

/-!
# The text of normal forms

A node is written `s(:tag, item, …)`, with its line after it if lines are asked for.
-/

namespace RubyNormalForm

namespace Item

/-- The text of an integer range. -/
def rangeText (start stop : Int) (exclusive : Bool) : String :=
  toString start ++ (if exclusive then "..." else "..") ++ toString stop

/-- The mark of a line after a node. -/
def lineMark (withLines : Bool) : Option Nat → List Char
  | some line => if withLines then '@' :: (toString line).toList else []
  | none => []

mutual

/-- The characters of the text of an item. -/
def render (withLines : Bool) : Item → List Char
  | .node tag items line _ =>
    's' :: '(' :: ':' :: tag.toList ++ renderAll withLines items ++ ')' :: lineMark withLines line
  | .nil => "nil".toList
  | .bool b => (if b then "true" else "false").toList
  | .sym name => (Symbol.inspect name).toList
  | .int n => (toString n).toList
  | .bigInt digits => digits.toList
  | .float x => x.inspect.toList
  | .str s => s.inspect.toList
  | .regexp r => r.inspect.toList
  | .range start stop exclusive => (rangeText start stop exclusive).toList
  | .rational text => text.toList
  | .imaginary text => text.toList

/-- The characters of the items of a node, each after a comma. -/
def renderAll (withLines : Bool) : List Item → List Char
  | [] => []
  | item :: rest => ',' :: ' ' :: render withLines item ++ renderAll withLines rest

end

/-- The text of an item. -/
def text (item : Item) : String :=
  String.ofList (item.render false)

end Item

namespace Form

/-- The text of a node. -/
def text (f : Form) : String :=
  f.toItem.text

/-- The text of a node with the line of each node after it. -/
def textWithLines (f : Form) : String :=
  String.ofList (f.toItem.render true)

end Form

end RubyNormalForm
