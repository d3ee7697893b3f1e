import RubyNormalForm.Error

/-!
# Reading the children of a node

A node's children are read by index, each as what the node's rule needs there. A child that
is not there reads as `nil`, and a child of the wrong kind is an error that names the node.
-/

namespace RubyNormalForm.Raw

namespace Node

/-- The error of a child that is not what is wanted. -/
def expected (n : Node) (wanted : Wanted) (found : Raw) : Error :=
  .malformed n.tag (.expected wanted found)

/-- The child at an index, which must be a node. -/
def nodeAt (n : Node) (i : Nat) : Result Node :=
  match n.slot i with
  | .node tag children => .ok ⟨tag, children⟩
  | other => .error (n.expected .node other)

/-- The child at an index, which must be a node or absent. -/
def nodeAt? (n : Node) (i : Nat) : Result (Option Node) :=
  match n.slot i with
  | .node tag children => .ok (some ⟨tag, children⟩)
  | other => if other.isAbsent then .ok none else .error (n.expected .nodeOrNil other)

/-- The child at an index, which must be a string. -/
def stringAt (n : Node) (i : Nat) : Result String :=
  match n.slot i with
  | .str text => .ok text
  | other => .error (n.expected .string other)

/-- The child at an index, which must be a symbol. -/
def symbolAt (n : Node) (i : Nat) : Result String :=
  match n.slot i with
  | .sym name => .ok name
  | other => .error (n.expected .symbol other)

/-- The child at an index, which must be a position. -/
def positionAt (n : Node) (i : Nat) : Result (Nat × Nat) :=
  match n.slot i with
  | .pos line column => .ok (line, column)
  | other => .error (n.expected .position other)

/-- The children that are not absent, all of which must be nodes. -/
def presentNodes (n : Node) : List Raw → Result (List Node)
  | [] => .ok []
  | child :: rest =>
    if child.isAbsent then n.presentNodes rest
    else
      match child with
      | .node tag children => do
        let nodes ← n.presentNodes rest
        return ⟨tag, children⟩ :: nodes
      | other => .error (n.expected .node other)

/-- The present children from an index on, which must be nodes. -/
def nodesFrom (n : Node) (i : Nat) : Result (List Node) :=
  n.presentNodes (n.children.drop i)

end Node

/-- A question about a node whose children are read in order. -/
inductive Query where
  | tag
  | remaining
  | raw
  | node
  | nodeOrNil
  | string
  | symbol
  | position
  | rest
  | restNodes
deriving DecidableEq

/-- What a question brings to light. -/
inductive Reading where
  | tag (name : String)
  | count (n : Nat)
  | raw (r : Raw)
  | node (n : Node)
  | nodeOrNil (n : Option Node)
  | string (text : String)
  | symbol (name : String)
  | position (line column : Nat)
  | rest (children : List Raw)
  | restNodes (nodes : List Node)

namespace Query

/-- How many children a question passes over, whatever they are. -/
def width : Query → Nat
  | .tag => 0
  | .remaining => 0
  | _ => 1

/-- Whether a question takes all the children that are left. -/
def isLast : Query → Bool
  | .rest => true
  | .restNodes => true
  | _ => false

/-- The answer to a question when the first `i` children have been passed. -/
def answer (n : Node) (i : Nat) : Query → Result Reading
  | .tag => .ok (.tag n.tag)
  | .remaining => .ok (.count (n.children.length - i))
  | .raw => .ok (.raw (n.slot i))
  | .node => (n.nodeAt i).map .node
  | .nodeOrNil => (n.nodeAt? i).map .nodeOrNil
  | .string => (n.stringAt i).map .string
  | .symbol => (n.symbolAt i).map .symbol
  | .position => (n.positionAt i).map fun (line, column) => .position line column
  | .rest => .ok (.rest (n.children.drop i))
  | .restNodes => (n.nodesFrom i).map .restNodes

/-- The answers to a sequence of questions, each about the next child. Questions after one
that takes all the children are not answered. -/
def answers (n : Node) : (i : Nat) → List Query → List (Result Reading)
  | _, [] => []
  | i, q :: queries =>
    q.answer n i :: (if q.isLast then [] else answers n (i + q.width) queries)

end Query

end RubyNormalForm.Raw
