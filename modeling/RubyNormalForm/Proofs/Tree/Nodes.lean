import RubyNormalForm.Proofs.Tree.Likeness

/-!
# The nodes of a normal form, and its relabelling

`Form.nodes` lists a node with all nodes below it. `Form.relabel` changes the lines of these
nodes and the encodings of the strings in them, and nothing else: adding to every line and
forgetting every encoding are relabellings. Forms that are alike have the same relabelling
whenever corresponding lines and encodings are sent to the same ones.
-/

namespace RubyNormalForm

/-- Corresponding values are sent to the same one. -/
theorem optionMap_eq {α β γ : Type} {r : α → β → Prop} {a : Option α} {b : Option β} {f : α → γ}
    {g : β → γ} (h : Option.Rel r a b) (same : ∀ x y, r x y → f x = g y) : a.map f = b.map g := by
  cases h with
  | some related => rw [Option.map_some, Option.map_some, same _ _ related]
  | none => rfl

namespace Item

mutual

/-- The nodes of an item, outer nodes first. -/
def nodes : Item → List Form
  | .node tag items line comments => ⟨tag, items, line, comments⟩ :: nodesIn items
  | _ => []

/-- The nodes of a sequence of items. -/
def nodesIn : List Item → List Form
  | [] => []
  | item :: rest => nodes item ++ nodesIn rest

end

theorem nodesIn_eq_flatMap (items : List Item) : nodesIn items = items.flatMap nodes := by
  induction items with
  | nil => rfl
  | cons item rest ih => rw [nodesIn, ih, List.flatMap_cons]

mutual

/-- The item with other lines and encodings. -/
def relabel (line : Nat → Nat) (encoding : Encoding → Encoding) : Item → Item
  | .node tag items own comments =>
    .node tag (relabelAll line encoding items) (own.map line) comments
  | .str s => .str ⟨s.bytes, encoding s.encoding⟩
  | item => item

/-- Changes the lines and encodings in a sequence of items. -/
def relabelAll (line : Nat → Nat) (encoding : Encoding → Encoding) : List Item → List Item
  | [] => []
  | item :: rest => relabel line encoding item :: relabelAll line encoding rest

end

mutual

theorem relabel_id (x : Item) : x.relabel id id = x := by
  cases x with
  | node tag items line comments => rw [relabel, relabelAll_id items, Option.map_id, id]
  | _ => rfl

theorem relabelAll_id (xs : List Item) : relabelAll id id xs = xs := by
  cases xs with
  | nil => rfl
  | cons x rest => rw [relabelAll, relabel_id x, relabelAll_id rest]

end

/-! ### What like items have in common -/

section Like

variable {k : Likeness}

mutual

theorem relabel_eq_of_like (x : Item) {y : Item} (h : Like k x y) {line line' : Nat → Nat}
    {encoding encoding' : Encoding → Encoding} (lines : ∀ a b, k.line a b → line a = line' b)
    (encodings : ∀ e e', k.encoding e e' → encoding e = encoding' e') :
    x.relabel line encoding = y.relabel line' encoding' := by
  cases x with
  | node tag items own comments =>
    cases h with
    | scalar plain => cases plain
    | node inside own' =>
      have same : own.map line = Option.map line' _ := optionMap_eq own' lines
      rw [relabel, relabel, relabelAll_eq_of_like items inside lines encodings, same]
  | str s =>
    cases h with
    | scalar plain => cases plain
    | str same => rw [relabel, relabel, same.bytes, encodings _ _ same.encoding]
  | _ =>
    cases h
    rfl

theorem relabelAll_eq_of_like (xs : List Item) {ys : List Item} (h : List.Forall₂ (Like k) xs ys)
    {line line' : Nat → Nat} {encoding encoding' : Encoding → Encoding}
    (lines : ∀ a b, k.line a b → line a = line' b)
    (encodings : ∀ e e', k.encoding e e' → encoding e = encoding' e') :
    relabelAll line encoding xs = relabelAll line' encoding' ys := by
  cases xs with
  | nil =>
    cases h
    rfl
  | cons x rest =>
    cases h with
    | cons first others =>
      rw [relabelAll, relabelAll, relabel_eq_of_like x first lines encodings,
        relabelAll_eq_of_like rest others lines encodings]

end

mutual

theorem exists_like_of_mem_nodes (x : Item) {y : Item} (h : Like k x y) {f : Form}
    (member : f ∈ x.nodes) : ∃ g : Form, f.Like k g := by
  cases x with
  | node tag items line comments =>
    cases h with
    | scalar plain => cases plain
    | node inside lines =>
      rename_i items' line'
      obtain rfl | below := List.mem_cons.1 member
      · exact ⟨⟨tag, items', line', comments⟩, rfl, inside, lines, rfl⟩
      · exact exists_like_of_mem_nodesIn items inside below
  | _ => cases member

theorem exists_like_of_mem_nodesIn (xs : List Item) {ys : List Item}
    (h : List.Forall₂ (Like k) xs ys) {f : Form} (member : f ∈ nodesIn xs) :
    ∃ g : Form, f.Like k g := by
  cases xs with
  | nil => cases member
  | cons x rest =>
    cases h with
    | cons first others =>
      obtain here | below := List.mem_append.1 member
      · exact exists_like_of_mem_nodes x first here
      · exact exists_like_of_mem_nodesIn rest others below

end

end Like

end Item

namespace Form

/-- The node and all nodes below it. -/
def nodes (f : Form) : List Form :=
  f.toItem.nodes

theorem mem_nodes_self (f : Form) : f ∈ f.nodes :=
  List.mem_cons_self

/-- The node with other lines and encodings, in it and below it. -/
def relabel (line : Nat → Nat) (encoding : Encoding → Encoding) (f : Form) : Form :=
  { f with items := Item.relabelAll line encoding f.items, line := f.line.map line }

theorem relabel_id (f : Form) : f.relabel id id = f := by
  simp only [relabel, Item.relabelAll_id, Option.map_id, id]

variable {k : Likeness} {f g : Form}

theorem Like.relabel_eq (h : f.Like k g) {line line' : Nat → Nat}
    {encoding encoding' : Encoding → Encoding} (lines : ∀ a b, k.line a b → line a = line' b)
    (encodings : ∀ e e', k.encoding e e' → encoding e = encoding' e') :
    f.relabel line encoding = g.relabel line' encoding' := by
  rw [relabel, relabel, h.tag, h.comments, optionMap_eq h.line lines,
    Item.relabelAll_eq_of_like f.items h.items lines encodings]

/-- Each node of a form is like some node. -/
theorem Like.exists_like (h : f.Like k g) {inside : Form} (member : inside ∈ f.nodes) :
    ∃ other : Form, inside.Like k other :=
  Item.exists_like_of_mem_nodes f.toItem (like_toItem.2 h) member

/-- The line of a node has a corresponding line. -/
theorem Like.exists_line (h : f.Like k g) {line : Nat} (isLine : f.line = some line) :
    ∃ other, k.line line other := by
  have lines := h.line
  rw [isLine] at lines
  generalize g.line = right at lines
  cases lines with
  | some related => exact ⟨_, related⟩

/-- Each string of a node is like some string. -/
theorem Like.exists_string (h : f.Like k g) {s : ByteString} (member : .str s ∈ f.items) :
    ∃ t : ByteString, s.Like k t := by
  have inside := h.items
  generalize f.items = xs, g.items = ys at inside member
  induction inside with
  | nil => cases member
  | cons first others ih =>
    obtain rfl | below := List.mem_cons.1 member
    · cases first with
      | str same => exact ⟨_, same⟩
      | scalar plain => cases plain
    · exact ih below

/-- Each string of a node has a corresponding encoding. -/
theorem Like.exists_encoding (h : f.Like k g) {s : ByteString} (member : .str s ∈ f.items) :
    ∃ e, k.encoding s.encoding e := by
  obtain ⟨t, same⟩ := h.exists_string member
  exact ⟨t.encoding, same.encoding⟩

end Form

end RubyNormalForm
