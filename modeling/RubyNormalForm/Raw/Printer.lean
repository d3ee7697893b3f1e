import RubyNormalForm.Number.Layout
import RubyNormalForm.Raw.Basic
import RubyNormalForm.Symbol

/-!
# The text of raw trees

Raw trees are written in the notation of nested arrays: a node is an array that begins with
its tag as a symbol, an untagged sequence is a plain array, and a position is a pair of
numbers.
-/

namespace RubyNormalForm.Raw

/-- The layout of doubles in raw trees. -/
def floatLayout : NumberLayout where
  leastPoint := -3
  mostPoint := 16
  pointBeforeExponent := false
  plusSign := false
  exponentWidth := 1
  tie := .up
  nan := "NaN"
  infinity := "inf"
  negativeInfinity := "-inf"

/-- Texts between brackets, divided by commas. -/
def bracketed (items : List (List Char)) : List Char :=
  '[' :: List.intercalate [',', ' '] items ++ [']']

/-- The tag of a node as the first item of its array; an untagged sequence has none. -/
def tagItem (tag : String) : List (List Char) :=
  if tag == listTag then [] else [(Symbol.inspect tag).toList]

mutual

/-- The characters of the text of a tree. -/
def render : Raw → List Char
  | .node tag children => bracketed (tagItem tag ++ renderAll children)
  | .str text => (ByteString.ofText text).inspect.toList
  | .sym name => (Symbol.inspect name).toList
  | .int n => (toString n).toList
  | .float x => (floatLayout.render x).toList
  | .bool b => (if b then "true" else "false").toList
  | .nil => "nil".toList
  | .pos line column => bracketed [(toString line).toList, (toString column).toList]

/-- The characters of the texts of several trees. -/
def renderAll : List Raw → List (List Char)
  | [] => []
  | child :: rest => render child :: renderAll rest

end

/-- The text of a tree. -/
def text (r : Raw) : String :=
  String.ofList r.render

/-- The text of a node. -/
def Node.text (n : Node) : String :=
  n.toRaw.text

end RubyNormalForm.Raw
