import RubyNormalForm.Number.Binary64

/-!
# Raw trees

What a parser hands over: tagged nodes whose children are nodes, scalars or nothing. Tokens
are leaves whose tag begins with `@` and which hold the token's text and its position.
Sequences without a tag of their own carry the tag `-`, so every node has one.
-/

namespace RubyNormalForm

/-- A value in a raw tree. -/
inductive Raw where
  | node (tag : String) (children : List Raw)
  | str (text : String)
  | sym (name : String)
  | int (n : Int)
  | float (x : Binary64)
  | bool (b : Bool)
  | nil
  /-- A source position: lines count from one, columns from zero. -/
  | pos (line column : Nat)

namespace Raw

instance : Inhabited Raw := ⟨.nil⟩

/-- A node of a raw tree: a tag and the children under it. -/
structure Node where
  tag : String
  children : List Raw

/-- The tag of sequences that have none of their own. -/
def listTag : String := "-"

/-- Whether a value stands for nothing at all: `nil` and `false` both do. -/
def isAbsent : Raw → Bool
  | .nil => true
  | .bool b => !b
  | _ => false

/-- The value as a node, if it is one. -/
def node? : Raw → Option Node
  | .node tag children => some ⟨tag, children⟩
  | _ => none

mutual

/-- The size of a tree: the number of its values, with a node counted twice so that it is
larger than a child it does not have. -/
def size : Raw → Nat
  | .node _ children => sizeAll children + 2
  | .str _ => 1
  | .sym _ => 1
  | .int _ => 1
  | .float _ => 1
  | .bool _ => 1
  | .nil => 1
  | .pos _ _ => 1

/-- The size of a sequence of trees. -/
def sizeAll : List Raw → Nat
  | [] => 0
  | child :: rest => size child + sizeAll rest

end

mutual

/-- The first position in a tree, read from left to right. -/
def firstPosition : Raw → Option (Nat × Nat)
  | .node _ children => firstPositionIn children
  | .pos line column => some (line, column)
  | _ => none

/-- The first position in a sequence of trees. -/
def firstPositionIn : List Raw → Option (Nat × Nat)
  | [] => none
  | child :: rest =>
    match firstPosition child with
    | some position => some position
    | none => firstPositionIn rest

end

mutual

/-- Equality of trees, with doubles compared as numbers. -/
def same : Raw → Raw → Bool
  | .node tag children, .node tag' children' => tag == tag' && sameAll children children'
  | .str s, .str t => s == t
  | .sym s, .sym t => s == t
  | .int m, .int n => m == n
  | .float x, .float y => x.same y
  | .bool a, .bool b => a == b
  | .nil, .nil => true
  | .pos l c, .pos l' c' => l == l' && c == c'
  | _, _ => false

/-- Equality of sequences of trees. -/
def sameAll : List Raw → List Raw → Bool
  | [], [] => true
  | x :: xs, y :: ys => same x y && sameAll xs ys
  | _, _ => false

end

/-- A tree is no larger than a sequence it belongs to. -/
theorem size_le_sizeAll_of_mem {child : Raw} {children : List Raw} (h : child ∈ children) :
    child.size ≤ sizeAll children := by
  induction children with
  | nil => simp at h
  | cons c cs ih =>
    rw [sizeAll]
    rcases List.mem_cons.1 h with rfl | h
    · omega
    · have := ih h
      omega

namespace Node

/-- The node as a value. -/
def toRaw (n : Node) : Raw :=
  .node n.tag n.children

/-- The size of a node as a tree. -/
def size (n : Node) : Nat :=
  sizeAll n.children + 2

/-- A sequence without a tag. -/
def list (children : List Raw) : Node :=
  ⟨listTag, children⟩

/-- A token of the given kind. -/
def token (kind text : String) (line column : Nat) : Node :=
  ⟨"@" ++ kind, [.str text, .pos line column]⟩

/-- Whether the node has the given tag. -/
def is (n : Node) (tag : String) : Bool :=
  n.tag == tag

/-- Whether the node is a sequence without a tag. -/
def isList (n : Node) : Bool :=
  n.tag == listTag

/-- Whether the node is a token. -/
def isToken (n : Node) : Bool :=
  n.tag.toList.head? == some '@'

/-- Whether the node is a sequence of statements. -/
def isStatements (n : Node) : Bool :=
  n.isList || n.is "stmts"

/-- Whether the node is a range. -/
def isRange (n : Node) : Bool :=
  n.is "dot2" || n.is "dot3"

/-- The child at an index; a child that is not there is nothing. -/
def slot (n : Node) (i : Nat) : Raw :=
  n.children.getD i .nil

/-- The child at an index, if it is a node. -/
def child? (n : Node) (i : Nat) : Option Node :=
  (n.slot i).node?

/-- The text of a token. -/
def tokenText? (n : Node) : Option String :=
  match n.isToken, n.slot 0 with
  | true, .str text => some text
  | _, _ => none

/-- The first position in a node, read from left to right. -/
def firstPosition (n : Node) : Option (Nat × Nat) :=
  firstPositionIn n.children

/-- The line of the first position in a node. -/
def firstLine (n : Node) : Option Nat :=
  n.firstPosition.map Prod.fst

/-- The statements in a sequence of statements, empty ones apart; any other node is a
statement itself. -/
def statements (n : Node) : List Node :=
  if n.isStatements then (n.children.filterMap node?).filter (!·.is "void_stmt") else [n]

/-- What stands between parentheses, or between `begin` and `end` if there are no clauses. -/
def wrappedBody? (n : Node) : Option Node :=
  if n.is "paren" then n.child? 0
  else if n.is "begin" then
    match n.child? 0 with
    | some body =>
      if body.is "bodystmt" && (body.children.drop 1).all isAbsent then body.child? 0 else none
    | none => none
  else none

/-- The only statement between parentheses or between `begin` and `end`. -/
def wrapped? (n : Node) : Option Node :=
  match n.wrappedBody?.map statements with
  | some [single] => some single
  | _ => none

/-- A child is smaller than its node, even one that is not there. -/
theorem size_slot_lt (n : Node) (i : Nat) : (n.slot i).size < n.size := by
  unfold slot
  rw [List.getD_eq_getElem?_getD]
  cases hc : n.children[i]? with
  | none => simp only [Option.getD_none, Raw.size, size]; omega
  | some c =>
    have := size_le_sizeAll_of_mem (List.mem_of_getElem? hc)
    simp only [Option.getD_some, size]
    omega

theorem size_of_node? {r : Raw} {n : Node} (h : r.node? = some n) : n.size = r.size := by
  cases r <;> simp [node?] at h
  subst h
  simp [size, Raw.size]

theorem size_lt_of_child? {n m : Node} {i : Nat} (h : n.child? i = some m) :
    m.size < n.size := by
  rw [size_of_node? h]
  exact size_slot_lt n i

theorem size_le_of_mem_statements {n m : Node} (h : m ∈ n.statements) : m.size ≤ n.size := by
  unfold statements at h
  split at h
  · obtain ⟨c, hc, hm⟩ := List.mem_filterMap.1 (List.mem_filter.1 h).1
    have := size_le_sizeAll_of_mem hc
    cases c <;> simp [node?] at hm
    subst hm
    simp only [Raw.size] at this
    simp only [size]
    omega
  · simp only [List.mem_singleton] at h
    exact h ▸ Nat.le_refl _

theorem size_lt_of_wrappedBody? {n m : Node} (h : n.wrappedBody? = some m) :
    m.size < n.size := by
  unfold wrappedBody? at h
  split at h
  · exact size_lt_of_child? h
  · split at h
    · split at h
      · rename_i body hbody
        split at h
        · exact Nat.lt_trans (size_lt_of_child? h) (size_lt_of_child? hbody)
        · simp at h
      · simp at h
    · simp at h

/-- A wrapped statement is smaller than its wrapping. -/
theorem size_lt_of_wrapped? {n m : Node} (h : n.wrapped? = some m) : m.size < n.size := by
  unfold wrapped? at h
  split at h
  · rename_i single hbody
    obtain ⟨body, hb, hs⟩ := Option.map_eq_some_iff.1 hbody
    obtain rfl : single = m := by simpa using h
    have hm : single ∈ body.statements := by simp [hs]
    exact Nat.lt_of_le_of_lt (size_le_of_mem_statements hm) (size_lt_of_wrappedBody? hb)
  · simp at h

/-- Computes a value for a node from the values of smaller nodes, which `step` may ask for.
If it asks for a node that is not smaller, it gets the value `stuck` has for that node. -/
def bySize {α : Type} (stuck : Node → α) (step : (Node → α) → Node → α) (n : Node) : α :=
  step (fun m => if _h : m.size < n.size then bySize stuck step m else stuck m) n
termination_by n.size

theorem bySize_eq {α : Type} (stuck : Node → α) (step : (Node → α) → Node → α) (n : Node) :
    bySize stuck step n =
      step (fun m => if m.size < n.size then bySize stuck step m else stuck m) n := by
  rw [bySize]
  simp only [dite_eq_ite]

/-- The only statement inside any number of wrappings; `none` if there is no wrapping. -/
def unwrap? (n : Node) : Option Node :=
  match _h : n.wrapped? with
  | none => none
  | some m => some (m.unwrap?.getD m)
termination_by n.size
decreasing_by exact size_lt_of_wrapped? _h

end Node

end Raw

end RubyNormalForm
