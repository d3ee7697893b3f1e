import RubyNormalForm.ByteString
import RubyNormalForm.Literal.Regexp
import RubyNormalForm.Number.Binary64
import RubyNormalForm.Number.Width

/-!
# Normal forms

A normal form is a tagged node whose items are nodes and scalars. Two attributes of a node
stand beside its contents and do not take part in equality: the source line it comes from,
and, on definitions, the comments written before it.
-/

namespace RubyNormalForm

/-- An item of a node. -/
inductive Item where
  | node (tag : String) (items : List Item) (line : Option Nat) (comments : Option String)
  | nil
  | bool (b : Bool)
  | sym (name : String)
  /-- An integer of at most 128 bits. -/
  | int (n : Int)
  /-- A larger integer, by its digits. -/
  | bigInt (digits : String)
  | float (x : Binary64)
  | str (s : ByteString)
  | regexp (r : Regexp)
  | range (start stop : Int) (exclusive : Bool)
  | rational (text : String)
  | imaginary (text : String)

/-- A node of a normal form. -/
structure Form where
  tag : String
  items : List Item
  line : Option Nat := none
  comments : Option String := none

namespace Item

instance : Inhabited Item := ⟨.nil⟩

/-- The item as a node, if it is one. -/
def form? : Item → Option Form
  | .node tag items line comments => some ⟨tag, items, line, comments⟩
  | _ => none

/-- The line of an item; only nodes have one. -/
def line? : Item → Option Nat
  | .node _ _ line _ => line
  | _ => none

mutual

/-- Equality of items. Lines and comments are not compared, and doubles are compared as
numbers. -/
def same : Item → Item → Bool
  | .node tag items _ _, .node tag' items' _ _ => tag == tag' && sameAll items items'
  | .nil, .nil => true
  | .bool a, .bool b => a == b
  | .sym s, .sym t => s == t
  | .int m, .int n => m == n
  | .bigInt s, .bigInt t => s == t
  | .float x, .float y => x.same y
  | .str s, .str t => s == t
  | .regexp r, .regexp s => r == s
  | .range a b x, .range a' b' x' => a == a' && b == b' && x == x'
  | .rational s, .rational t => s == t
  | .imaginary s, .imaginary t => s == t
  | _, _ => false

/-- Equality of sequences of items. -/
def sameAll : List Item → List Item → Bool
  | [], [] => true
  | x :: xs, y :: ys => same x y && sameAll xs ys
  | _, _ => false

end

/-- An integer as an item: by value if it fits 128 bits, by its digits otherwise. -/
def ofInteger (n : Int) : Item :=
  if Number.fits128 n then .int n else .bigInt (toString n)

end Item

namespace Form

/-- The node as an item. -/
def toItem (f : Form) : Item :=
  .node f.tag f.items f.line f.comments

/-- A node or nothing, as an item. -/
def itemOf : Option Form → Item
  | some f => f.toItem
  | none => .nil

/-- Whether the node has the given tag. -/
def is (f : Form) (tag : String) : Bool :=
  f.tag == tag

/-- The node with one more item. -/
def push (f : Form) (item : Item) : Form :=
  { f with items := f.items ++ [item] }

/-- The node with more nodes under it. -/
def pushAll (f : Form) (forms : List Form) : Form :=
  { f with items := f.items ++ forms.map toItem }

/-- The node with a node under it if there is one. -/
def push? (f : Form) : Option Form → Form
  | some g => f.push g.toItem
  | none => f

/-- The node under the given nodes. -/
def group (tag : String) (forms : List Form) : Form :=
  { tag := tag, items := forms.map toItem }

/-- The node with a line, unless it has one. -/
def withLine (f : Form) (line : Option Nat) : Form :=
  { f with line := f.line.or line }

/-- The node at an index, if that item is a node. -/
def formAt? (f : Form) (i : Nat) : Option Form :=
  (f.items[i]?).bind Item.form?

/-- The symbol at an index, if that item is a symbol. -/
def symbolAt? (f : Form) (i : Nat) : Option String :=
  match f.items[i]? with
  | some (.sym name) => some name
  | _ => none

/-- The statements of a body: those of a block, or the node itself. -/
def statements (f : Form) : List Form :=
  if f.is "block" then f.items.filterMap Item.form? else [f]

/-- Equality of nodes; lines and comments are not compared. -/
def same (f g : Form) : Bool :=
  f.toItem.same g.toItem

/-- The node with another item at an index. -/
def replaceAt (f : Form) (i : Nat) (item : Item) : Form :=
  { f with items := f.items.set i item }

/-- Gives the node at an index a line, unless it has one; `none` if no node is there. -/
def withLineAt? (f : Form) (i : Nat) (line : Option Nat) : Option (Form × Form) :=
  (f.formAt? i).map fun child =>
    let child := child.withLine line
    (f.replaceAt i child.toItem, child)

end Form

namespace Item

mutual

/-- The comments in an item with the tags of their nodes, outer nodes first. -/
def comments : Item → List (String × String)
  | .node tag items _ text =>
    match text with
    | some text => (tag, text) :: commentsAll items
    | none => commentsAll items
  | _ => []

/-- The comments in a sequence of items. -/
def commentsAll : List Item → List (String × String)
  | [] => []
  | item :: rest => comments item ++ commentsAll rest

end

end Item

end RubyNormalForm
