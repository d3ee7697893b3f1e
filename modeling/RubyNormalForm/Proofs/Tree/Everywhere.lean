import RubyNormalForm.Proofs.Tree.Nodes
import RubyNormalForm.Proofs.Tree.Unlined

/-!
# What holds at every node

A property of nodes holds everywhere in a normal form if it holds of the node and of all nodes
below it. The passes over lines keep whatever does not ask for a line that is missing: they
leave every tag, every comment and every line that is there.
-/

namespace RubyNormalForm

/-- The second node is the first with lines filled in where there were none. -/
structure Form.Filled (f g : Form) : Prop where
  tag : g.tag = f.tag
  comments : g.comments = f.comments
  items : Item.unlinedAll g.items = Item.unlinedAll f.items
  line : ∀ line, f.line = some line → g.line = some line

/-- The property does not ask for a line that is missing. -/
def LineFree (P : Form → Prop) : Prop :=
  ∀ {f g : Form}, f.Filled g → P f → P g

namespace Item

/-- The property holds of every node in the item. -/
def All (P : Form → Prop) (x : Item) : Prop :=
  ∀ f ∈ x.nodes, P f

variable {P : Form → Prop}

@[simp]
theorem all_node {tag : String} {items : List Item} {line : Option Nat} {comments : Option String} :
    All P (.node tag items line comments) ↔
      P ⟨tag, items, line, comments⟩ ∧ ∀ x ∈ items, x.All P := by
  simp only [All, nodes, nodesIn_eq_flatMap, List.forall_mem_cons, List.mem_flatMap,
    forall_exists_index, and_imp]
  exact and_congr_right fun _ => ⟨fun h x inItems f inside => h f x inItems inside,
    fun h f x inItems inside => h x inItems f inside⟩

theorem all_of_isScalar {x : Item} (scalar : x.isScalar = true) : x.All P := by
  cases x with
  | node tag items line comments => cases scalar
  | _ =>
    intro f member
    cases member

theorem all_str (s : ByteString) : All P (.str s) := by
  intro f member
  cases member

@[simp] theorem all_nil : All P .nil := all_of_isScalar rfl

@[simp] theorem all_bool (b : Bool) : All P (.bool b) := all_of_isScalar rfl

@[simp] theorem all_sym (name : String) : All P (.sym name) := all_of_isScalar rfl

@[simp] theorem all_int (n : Int) : All P (.int n) := all_of_isScalar rfl

end Item

namespace Form

/-- The property holds of the node and of every node below it. -/
def All (P : Form → Prop) (f : Form) : Prop :=
  ∀ g ∈ f.nodes, P g

variable {P : Form → Prop} {f : Form}

theorem all_iff : f.All P ↔ P f ∧ ∀ x ∈ f.items, x.All P :=
  Item.all_node

@[simp] theorem all_toItem : f.toItem.All P ↔ f.All P := Iff.rfl

@[simp]
theorem all_itemOf {o : Option Form} : (itemOf o).All P ↔ ∀ f ∈ o, f.All P := by
  cases o with
  | none => simp [itemOf]
  | some f => simp [itemOf]

@[simp]
theorem all_map_toItem {forms : List Form} :
    (∀ x ∈ forms.map toItem, x.All P) ↔ ∀ f ∈ forms, f.All P := by
  simp

theorem All.root (h : f.All P) : P f :=
  (all_iff.1 h).1

theorem All.items (h : f.All P) : ∀ x ∈ f.items, x.All P :=
  (all_iff.1 h).2

end Form

/-! ### Passes over lines -/

namespace Item

mutual

theorem unlined_spreadLines (x : Item) (line : Option Nat) :
    (x.spreadLines line).unlined = x.unlined := by
  cases x with
  | node tag items own comments =>
    simp only [spreadLines, unlined, unlinedAll_spreadLinesAll items]
  | _ => simp only [spreadLines]

theorem unlinedAll_spreadLinesAll (items : List Item) (line : Option Nat) :
    unlinedAll (spreadLinesAll line items) = unlinedAll items := by
  cases items with
  | nil => rfl
  | cons x rest =>
    simp only [spreadLinesAll, unlinedAll, unlined_spreadLines x, unlinedAll_spreadLinesAll rest]

end

end Item

namespace Form

theorem filled_raiseLines (f : Form) : f.Filled f.raiseLines where
  tag := rfl
  comments := rfl
  items := Item.unlinedAll_raiseLinesAll f.items
  line := by
    intro own isLine
    rw [raiseLines, isLine, Option.some_or]

theorem filled_spreadLines (f : Form) (line : Option Nat) : f.Filled (f.spreadLines line) where
  tag := rfl
  comments := rfl
  items := Item.unlinedAll_spreadLinesAll f.items _
  line := by
    intro own isLine
    rw [spreadLines, isLine, Option.some_or]

end Form

namespace Item

variable {P : Form → Prop}

mutual

theorem All.raiseLines (free : LineFree P) {x : Item} (h : x.All P) : x.raiseLines.All P := by
  cases x with
  | node tag items line comments =>
    rw [all_node] at h
    rw [Item.raiseLines, all_node]
    exact ⟨free (Form.filled_raiseLines ⟨tag, items, line, comments⟩) h.1,
      All.raiseLinesAll free h.2⟩
  | _ => simpa only [Item.raiseLines] using h

theorem All.raiseLinesAll (free : LineFree P) {items : List Item} (h : ∀ x ∈ items, x.All P) :
    ∀ x ∈ Item.raiseLinesAll items, x.All P := by
  cases items with
  | nil => exact h
  | cons x rest =>
    rw [List.forall_mem_cons] at h
    rw [Item.raiseLinesAll, List.forall_mem_cons]
    exact ⟨All.raiseLines free h.1, All.raiseLinesAll free h.2⟩

end

mutual

theorem All.spreadLines (free : LineFree P) {x : Item} (h : x.All P) (line : Option Nat) :
    (x.spreadLines line).All P := by
  cases x with
  | node tag items own comments =>
    rw [all_node] at h
    rw [Item.spreadLines, all_node]
    exact ⟨free (Form.filled_spreadLines ⟨tag, items, own, comments⟩ line) h.1,
      All.spreadLinesAll free h.2 (own.or line)⟩
  | _ => simpa only [Item.spreadLines] using h

theorem All.spreadLinesAll (free : LineFree P) {items : List Item} (h : ∀ x ∈ items, x.All P)
    (line : Option Nat) :
    ∀ x ∈ Item.spreadLinesAll line items, x.All P := by
  cases items with
  | nil => exact h
  | cons x rest =>
    rw [List.forall_mem_cons] at h
    rw [Item.spreadLinesAll, List.forall_mem_cons]
    exact ⟨All.spreadLines free h.1 line, All.spreadLinesAll free h.2 line⟩

end

end Item

namespace Form

theorem filled_withLine (f : Form) (line : Option Nat) : f.Filled (f.withLine line) where
  tag := rfl
  comments := rfl
  items := rfl
  line := by
    intro own isLine
    rw [Form.withLine, isLine]
    rfl

theorem filled_settle (ctx : Context) (n : Raw.Node) (f : Form) : f.Filled (settle ctx n f) := by
  have lined := f.filled_withLine (ctx.lineOf n)
  rw [RubyNormalForm.settle]
  split
  · rename_i missing
    refine ⟨lined.tag, lined.comments, Item.unlinedAll_raiseLinesAll _, ?_⟩
    intro line isLine
    rw [lined.line line isLine] at missing
    cases missing
  · exact lined

variable {P : Form → Prop} (free : LineFree P) {f : Form}
include free

theorem All.withLine (h : f.All P) (line : Option Nat) : (f.withLine line).All P := by
  rw [all_iff] at h ⊢
  exact ⟨free (f.filled_withLine line) h.1, h.2⟩

theorem All.raiseLines (h : f.All P) : f.raiseLines.All P := by
  rw [← all_toItem, toItem_raiseLines]
  exact Item.All.raiseLines free h

theorem All.settleLines (h : f.All P) : f.settleLines.All P := by
  rw [Form.settleLines, ← all_toItem, toItem_spreadLines]
  exact Item.All.spreadLines free (All.raiseLines free h) _

/-- Settling the line of a node does nothing else to the nodes below it. -/
theorem all_items_settle (inside : ∀ x ∈ f.items, x.All P) (ctx : Context) (n : Raw.Node) :
    ∀ x ∈ (settle ctx n f).items, x.All P := by
  rw [RubyNormalForm.settle]
  split
  · exact Item.All.raiseLinesAll free inside
  · exact inside

theorem All.settle (h : f.All P) (ctx : Context) (n : Raw.Node) :
    (RubyNormalForm.settle ctx n f).All P := by
  rw [all_iff] at h ⊢
  exact ⟨free (filled_settle ctx n f) h.1, all_items_settle free h.2 ctx n⟩

end Form

/-! ### What holds somewhere -/

namespace Item

mutual

theorem exists_filled_of_mem_raiseLines (x : Item) {f : Form} (member : f ∈ x.nodes) :
    ∃ g ∈ x.raiseLines.nodes, f.Filled g := by
  cases x with
  | node tag items line comments =>
    rw [nodes] at member
    rw [Item.raiseLines, nodes]
    obtain rfl | below := List.mem_cons.1 member
    · exact ⟨_, List.mem_cons_self, Form.filled_raiseLines ⟨tag, items, line, comments⟩⟩
    · obtain ⟨g, inside, filled⟩ := exists_filled_of_mem_raiseLinesAll items below
      exact ⟨g, List.mem_cons_of_mem _ inside, filled⟩
  | _ => cases member

theorem exists_filled_of_mem_raiseLinesAll (items : List Item) {f : Form}
    (member : f ∈ nodesIn items) : ∃ g ∈ nodesIn (raiseLinesAll items), f.Filled g := by
  cases items with
  | nil => cases member
  | cons x rest =>
    rw [nodesIn, List.mem_append] at member
    rw [Item.raiseLinesAll, nodesIn]
    obtain here | there := member
    · obtain ⟨g, inside, filled⟩ := exists_filled_of_mem_raiseLines x here
      exact ⟨g, List.mem_append_left _ inside, filled⟩
    · obtain ⟨g, inside, filled⟩ := exists_filled_of_mem_raiseLinesAll rest there
      exact ⟨g, List.mem_append_right _ inside, filled⟩

end

mutual

theorem exists_filled_of_mem_spreadLines (x : Item) (line : Option Nat) {f : Form}
    (member : f ∈ x.nodes) : ∃ g ∈ (x.spreadLines line).nodes, f.Filled g := by
  cases x with
  | node tag items own comments =>
    rw [nodes] at member
    rw [Item.spreadLines, nodes]
    obtain rfl | below := List.mem_cons.1 member
    · exact ⟨_, List.mem_cons_self, Form.filled_spreadLines ⟨tag, items, own, comments⟩ line⟩
    · obtain ⟨g, inside, filled⟩ := exists_filled_of_mem_spreadLinesAll items (own.or line) below
      exact ⟨g, List.mem_cons_of_mem _ inside, filled⟩
  | _ => cases member

theorem exists_filled_of_mem_spreadLinesAll (items : List Item) (line : Option Nat) {f : Form}
    (member : f ∈ nodesIn items) : ∃ g ∈ nodesIn (spreadLinesAll line items), f.Filled g := by
  cases items with
  | nil => cases member
  | cons x rest =>
    rw [nodesIn, List.mem_append] at member
    rw [Item.spreadLinesAll, nodesIn]
    obtain here | there := member
    · obtain ⟨g, inside, filled⟩ := exists_filled_of_mem_spreadLines x line here
      exact ⟨g, List.mem_append_left _ inside, filled⟩
    · obtain ⟨g, inside, filled⟩ := exists_filled_of_mem_spreadLinesAll rest line there
      exact ⟨g, List.mem_append_right _ inside, filled⟩

end

end Item

namespace Form

/-- The property holds of the node or of a node below it. -/
def Has (P : Form → Prop) (f : Form) : Prop :=
  ∃ g ∈ f.nodes, P g

variable {P : Form → Prop} {f : Form}

theorem Has.root (h : P f) : f.Has P :=
  ⟨f, f.mem_nodes_self, h⟩

theorem Has.of_mem {g : Form} (h : g.Has P) (isItem : g.toItem ∈ f.items) : f.Has P := by
  obtain ⟨inside, member, holds⟩ := h
  refine ⟨inside, ?_, holds⟩
  show inside ∈ f :: Item.nodesIn f.items
  rw [Item.nodesIn_eq_flatMap]
  exact List.mem_cons_of_mem _ (List.mem_flatMap.2 ⟨_, isItem, member⟩)

variable (free : LineFree P)
include free

theorem Has.withLine (h : f.Has P) (line : Option Nat) : (f.withLine line).Has P := by
  obtain ⟨g, member, holds⟩ := h
  obtain rfl | below := List.mem_cons.1 member
  · exact .root (free (filled_withLine _ line) holds)
  · exact ⟨g, List.mem_cons_of_mem _ below, holds⟩

theorem Has.raiseLines (h : f.Has P) : f.raiseLines.Has P := by
  obtain ⟨g, member, holds⟩ := h
  obtain ⟨g', member', filled⟩ := Item.exists_filled_of_mem_raiseLines f.toItem member
  rw [← toItem_raiseLines] at member'
  exact ⟨g', member', free filled holds⟩

theorem Has.settleLines (h : f.Has P) : f.settleLines.Has P := by
  obtain ⟨g, member, holds⟩ := h.raiseLines free
  obtain ⟨g', member', filled⟩ :=
    Item.exists_filled_of_mem_spreadLines f.raiseLines.toItem f.raiseLines.line member
  rw [← toItem_spreadLines] at member'
  exact ⟨g', member', free filled holds⟩

theorem Has.settle (h : f.Has P) (ctx : Context) (n : Raw.Node) :
    (RubyNormalForm.settle ctx n f).Has P := by
  rw [RubyNormalForm.settle]
  split
  · exact (h.withLine free _).raiseLines free
  · exact h.withLine free _

end Form

end RubyNormalForm
