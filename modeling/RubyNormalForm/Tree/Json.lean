import RubyNormalForm.Json.Basic
import RubyNormalForm.Number.Layout
import RubyNormalForm.Tree.Basic

/-!
# Normal forms as JSON

A node is an object with its tag, its items and, where there are any, its line and comments.
An item is an object that names its kind and holds its value. A string is shown by its bytes,
so nothing is lost whatever its encoding.
-/

namespace RubyNormalForm

/-- The layout of doubles in JSON; the values that JSON cannot write are null. -/
def jsonLayout : NumberLayout where
  leastPoint := -4
  mostPoint := 16
  pointBeforeExponent := false
  plusSign := true
  exponentWidth := 1
  tie := .even
  nan := "null"
  infinity := "null"
  negativeInfinity := "null"

/-- The name of an encoding in JSON. -/
def Encoding.jsonName : Encoding → String
  | .utf8 => "Utf8"
  | .binary => "Binary"
  | .usAscii => "UsAscii"

namespace Item

/-- An item of the given kind. -/
def jsonOfKind (kind : String) (value : JsonValue) : JsonValue :=
  .object [("kind", .string kind), ("value", value)]

/-- The line and the comments of a node, where there are any. -/
def jsonAttributes (line : Option Nat) (comments : Option String) : List (String × JsonValue) :=
  (match line with
   | some n => [("line", JsonValue.ofNat n)]
   | none => []) ++
    (match comments with
     | some text => [("comments", JsonValue.string text)]
     | none => [])

/-- A node, given the items under it. -/
def jsonOfNode (tag : String) (items : List JsonValue) (line : Option Nat)
    (comments : Option String) : JsonValue :=
  .object ([("tag", .string tag), ("items", .array items)] ++ jsonAttributes line comments)

mutual

/-- An item as JSON. -/
def toJson : Item → JsonValue
  | .node tag items line comments =>
    jsonOfKind "node" (jsonOfNode tag (toJsonAll items) line comments)
  | .nil => .object [("kind", .string "nil")]
  | .bool b => jsonOfKind "bool" (.bool b)
  | .sym name => jsonOfKind "sym" (.string name)
  | .int n => jsonOfKind "int" (.ofInt n)
  | .bigInt digits => jsonOfKind "big_int" (.string digits)
  | .float x => jsonOfKind "float" (.number (jsonLayout.render x))
  | .str s =>
    jsonOfKind "str" (.object [("bytes", .array (s.bytes.map fun b => .ofNat b.toNat)),
      ("encoding", .string s.encoding.jsonName)])
  | .regexp r =>
    jsonOfKind "regexp" (.object [("source", .string r.source), ("options", .ofNat r.options)])
  | .range start stop exclusive =>
    jsonOfKind "range" (.object [("start", .ofInt start), ("end", .ofInt stop),
      ("exclusive", .bool exclusive)])
  | .rational text => jsonOfKind "rational" (.string text)
  | .imaginary text => jsonOfKind "imaginary" (.string text)

/-- Several items as JSON. -/
def toJsonAll : List Item → List JsonValue
  | [] => []
  | item :: rest => toJson item :: toJsonAll rest

end

end Item

/-- A node as JSON. -/
def Form.toJson (f : Form) : JsonValue :=
  Item.jsonOfNode f.tag (Item.toJsonAll f.items) f.line f.comments

end RubyNormalForm
