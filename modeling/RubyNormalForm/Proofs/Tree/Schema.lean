import RubyNormalForm.Normalize

/-!
# The schema of normal forms

What may stand in the items of a node is fixed by its tag. The schema speaks of the kinds of
items only (a node with its tag, a symbol, nothing), so it does not depend on lines or on what
stands further below. It says something about the tags that consumers take apart by position;
a node with any other tag conforms whatever it holds.

Each function that builds such a node builds one that conforms.
-/

namespace RubyNormalForm

namespace Item

/-- What an item is, down to the tag of a node. -/
inductive Kind where
  | node (tag : String)
  | nil
  | bool
  | sym
  | int (n : Int)
  | other
deriving DecidableEq

/-- The kind of an item. -/
def kind : Item → Kind
  | .node tag _ _ _ => .node tag
  | .nil => .nil
  | .bool _ => .bool
  | .sym _ => .sym
  | .int n => .int n
  | _ => .other

@[simp] theorem kind_node (tag : String) (items : List Item) (line : Option Nat)
    (comments : Option String) : (node tag items line comments).kind = .node tag := rfl

@[simp] theorem kind_nil : nil.kind = .nil := rfl

@[simp] theorem kind_bool (b : Bool) : (bool b).kind = .bool := rfl

@[simp] theorem kind_sym (name : String) : (sym name).kind = .sym := rfl

@[simp] theorem kind_int (n : Int) : (int n).kind = .int n := rfl

namespace Kind

/-- The item is a node. -/
def IsNode (k : Kind) : Prop :=
  ∃ tag, k = .node tag

/-- The item is a node or nothing. -/
def IsOptional (k : Kind) : Prop :=
  k = .nil ∨ k.IsNode

@[simp] theorem isNode_node (tag : String) : (node tag).IsNode := ⟨tag, rfl⟩

@[simp] theorem isOptional_nil : nil.IsOptional := .inl rfl

@[simp] theorem isOptional_node (tag : String) : (node tag).IsOptional := .inr ⟨tag, rfl⟩

end Kind

end Item

open Item

namespace Form

/-- The kinds of the items of a node, in order. -/
def kinds (f : Form) : List Kind :=
  f.items.map kind

end Form

/-- The tags that the schema says something about. -/
def schemaTags : List String :=
  ["if", "while", "until", "and", "or", "call", "safe_call", "iter", "defn", "defs", "when",
    "resbody", "case", "block"]

/-- The items that a node with the given tag may have, by their kinds. -/
inductive Shape : String → List Kind → Prop
  | conditional {condition yes no : Kind} : condition.IsNode → yes.IsOptional → no.IsOptional →
      Shape "if" [condition, yes, no]
  | loop {tag : String} {condition body : Kind} : tag = "while" ∨ tag = "until" →
      condition.IsNode → body.IsOptional → Shape tag [condition, body, .bool]
  | boolean {tag : String} {left right : Kind} : tag = "and" ∨ tag = "or" →
      left.IsNode → right.IsNode → Shape tag [left, right]
  | call {tag : String} {receiver : Kind} {args : List Kind} : tag = "call" ∨ tag = "safe_call" →
      receiver.IsOptional → (∀ k ∈ args, k.IsNode) → Shape tag (receiver :: .sym :: args)
  | iteration {call parameters : Kind} {body : List Kind} : call.IsNode →
      parameters = .int 0 ∨ parameters = .node "args" → body.length ≤ 1 → (∀ k ∈ body, k.IsNode) →
      Shape "iter" (call :: parameters :: body)
  | method {body : List Kind} : body ≠ [] → (∀ k ∈ body, k.IsNode) →
      Shape "defn" (.sym :: .node "args" :: body)
  | singletonMethod {receiver : Kind} {body : List Kind} : receiver.IsNode → body ≠ [] →
      (∀ k ∈ body, k.IsNode) → Shape "defs" (receiver :: .sym :: .node "args" :: body)
  | clause {tag : String} {body : List Kind} : tag = "when" ∨ tag = "resbody" →
      body = [.nil] ∨ body ≠ [] ∧ (∀ k ∈ body, k.IsNode) → Shape tag (.node "array" :: body)
  | choice {subject : Kind} {clauses : List Kind} {last : Kind} : subject.IsOptional →
      (∀ k ∈ clauses, k = .node "when") → last.IsOptional →
      Shape "case" (subject :: (clauses ++ [last]))
  | block {statements : List Kind} : 2 ≤ statements.length → (∀ k ∈ statements, k.IsNode) →
      Shape "block" statements
  | free {tag : String} {items : List Kind} : tag ∉ schemaTags → Shape tag items

/-- What the schema says of `and` and `or`. -/
theorem Shape.operands {tag : String} {items : List Kind} (h : Shape tag items)
    (isBoolean : tag = "and" ∨ tag = "or") :
    ∃ left right, items = [left, right] ∧ left.IsNode ∧ right.IsNode := by
  cases h with
  | boolean _ left right => exact ⟨_, _, rfl, left, right⟩
  | free free => obtain rfl | rfl := isBoolean <;> simp [schemaTags] at free
  | loop other => obtain rfl | rfl := isBoolean <;> simp at other
  | call other => obtain rfl | rfl := isBoolean <;> simp at other
  | clause other => obtain rfl | rfl := isBoolean <;> simp at other
  | _ => simp at isBoolean

/-- What the schema says of calls. -/
theorem Shape.arguments {tag : String} {items : List Kind} (h : Shape tag items)
    (isCall : tag = "call" ∨ tag = "safe_call") :
    ∃ receiver args, items = receiver :: .sym :: args ∧ receiver.IsOptional ∧
      ∀ k ∈ args, k.IsNode := by
  cases h with
  | call _ receiver args => exact ⟨_, _, rfl, receiver, args⟩
  | free free => obtain rfl | rfl := isCall <;> simp [schemaTags] at free
  | loop other => obtain rfl | rfl := isCall <;> simp at other
  | boolean other => obtain rfl | rfl := isCall <;> simp at other
  | clause other => obtain rfl | rfl := isCall <;> simp at other
  | _ => simp at isCall

namespace Form

/-- The node has the shape that its tag prescribes. -/
def Conforms (f : Form) : Prop :=
  Shape f.tag f.kinds

@[simp] theorem kinds_of (tag : String) (items : List Item) :
    (Form.of tag items).kinds = items.map kind := rfl

@[simp] theorem kinds_withLine (f : Form) (line : Option Nat) :
    (f.withLine line).kinds = f.kinds := rfl

@[simp] theorem tag_of (tag : String) (items : List Item) : (Form.of tag items).tag = tag := rfl

@[simp] theorem tag_withLine (f : Form) (line : Option Nat) : (f.withLine line).tag = f.tag := rfl

@[simp] theorem kind_toItem (f : Form) : f.toItem.kind = .node f.tag := rfl

@[simp]
theorem isOptional_itemOf (f : Option Form) : (itemOf f).kind.IsOptional := by
  cases f with
  | none => exact Kind.isOptional_nil
  | some f => exact Kind.isOptional_node f.tag

/-- Nodes as items are of the kind of nodes. -/
theorem isNode_of_mem_map {forms : List Form} {k : Kind}
    (member : k ∈ (forms.map toItem).map kind) : k.IsNode := by
  obtain ⟨item, inItems, rfl⟩ := List.mem_map.1 member
  obtain ⟨f, -, rfl⟩ := List.mem_map.1 inItems
  exact Kind.isNode_node f.tag

/-! ### The functions that build such nodes -/

theorem conforms_conditional (condition : Form) (yes no : Option Form) :
    (Form.of "if" [condition.toItem, itemOf yes, itemOf no]).Conforms :=
  .conditional (Kind.isNode_node _) (isOptional_itemOf yes) (isOptional_itemOf no)

theorem conforms_loop (isUntil : Bool) (c : Rules.Condition) (body : Option Form) (first : Bool) :
    (Form.of (Rules.loopTag isUntil c) [c.expr.toItem, itemOf body, .bool first]).Conforms := by
  refine .loop ?_ (Kind.isNode_node _) (isOptional_itemOf body)
  rw [tag_of, Rules.loopTag]
  split <;> simp

theorem conforms_boolean {tag : String} (isBoolean : tag = "and" ∨ tag = "or") (left right : Form) :
    (Form.of tag [left.toItem, right.toItem]).Conforms :=
  .boolean isBoolean (Kind.isNode_node _) (Kind.isNode_node _)

theorem conforms_call {tag : String} (isCall : tag = "call" ∨ tag = "safe_call")
    (receiver : Option Form) (name : String) (args : List Form) :
    (Form.of tag (itemOf receiver :: .sym name :: args.map toItem)).Conforms :=
  .call isCall (isOptional_itemOf receiver) fun _ => isNode_of_mem_map

theorem conforms_iteration (call : Form) {parameters : Item}
    (slot : parameters.kind = .int 0 ∨ parameters.kind = .node "args") (body : Option Form) :
    (Rules.iteration call parameters body).Conforms := by
  cases body with
  | none => exact .iteration (Kind.isNode_node _) slot (by simp) (by simp)
  | some f => exact .iteration (Kind.isNode_node _) slot (Nat.le_refl 1) (by simp)

theorem conforms_method (name : String) {args : Form} (isArgs : args.tag = "args")
    {body : List Form} (present : body ≠ []) :
    (Rules.definition "defn" [.sym name, args.toItem] body).Conforms := by
  have kinds : (Rules.definition "defn" [.sym name, args.toItem] body).kinds =
      .sym :: .node "args" :: (body.map toItem).map kind := by
    simp [Rules.definition, Form.kinds, isArgs]
  rw [Conforms, kinds]
  exact .method (by simpa using present) fun _ => isNode_of_mem_map

theorem conforms_singletonMethod (receiver : Form) (name : String) {args : Form}
    (isArgs : args.tag = "args") {body : List Form} (present : body ≠ []) :
    (Rules.definition "defs" [receiver.toItem, .sym name, args.toItem] body).Conforms := by
  have kinds : (Rules.definition "defs" [receiver.toItem, .sym name, args.toItem] body).kinds =
      .node receiver.tag :: .sym :: .node "args" :: (body.map toItem).map kind := by
    simp [Rules.definition, Form.kinds, isArgs]
  rw [Conforms, kinds]
  exact .singletonMethod (Kind.isNode_node _) (by simpa using present) fun _ => isNode_of_mem_map

theorem conforms_clause {tag : String} (isClause : tag = "when" ∨ tag = "resbody")
    (tests : List Form) (body : List Form) :
    (Form.of tag ((Rules.array tests).toItem :: Rules.statementItems body)).Conforms := by
  refine .clause isClause ?_
  cases body with
  | nil => exact .inl rfl
  | cons f rest =>
    have nodes : ∀ k ∈ ((f :: rest).map toItem).map kind, k.IsNode := fun _ => isNode_of_mem_map
    exact .inr ⟨by simp [Rules.statementItems], nodes⟩

theorem conforms_case (subject : Option Form) {clauses : List Form}
    (whens : ∀ f ∈ clauses, f.tag = "when") (last : Option Form) :
    (Form.of "case" (itemOf subject :: (clauses.map toItem ++ [itemOf last]))).Conforms := by
  have kinds : (Form.of "case" (itemOf subject :: (clauses.map toItem ++ [itemOf last]))).kinds =
      (itemOf subject).kind :: ((clauses.map toItem).map kind ++ [(itemOf last).kind]) := by
    simp
  rw [Conforms, kinds]
  refine .choice (isOptional_itemOf subject) ?_ (isOptional_itemOf last)
  intro k member
  obtain ⟨item, inItems, rfl⟩ := List.mem_map.1 member
  obtain ⟨f, isClause, rfl⟩ := List.mem_map.1 inItems
  rw [kind_toItem, whens f isClause]

theorem conforms_block {statements : List Form} (several : 2 ≤ statements.length) :
    (Form.group "block" statements).Conforms :=
  .block (by simpa [group, kinds] using several) fun _ => isNode_of_mem_map

/-- A call stays one with more arguments after those it has. -/
theorem Conforms.pushAll {f : Form} (h : f.Conforms) (isCall : f.tag = "call" ∨ f.tag = "safe_call")
    (args : List Form) : (f.pushAll args).Conforms := by
  obtain ⟨receiver, before, kinds, optional, nodes⟩ := h.arguments isCall
  have all : (f.pushAll args).kinds =
      receiver :: .sym :: (before ++ (args.map toItem).map kind) := by
    rw [Form.kinds] at kinds
    simp [Form.pushAll, Form.kinds, kinds]
  rw [Conforms, all]
  refine .call isCall optional ?_
  intro k member
  obtain member | member := List.mem_append.1 member
  · exact nodes k member
  · exact isNode_of_mem_map member

end Form

end RubyNormalForm
