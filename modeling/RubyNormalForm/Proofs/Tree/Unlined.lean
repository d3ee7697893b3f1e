import RubyNormalForm.Normalize

/-!
# Normal forms without their lines

Erasing every line of a normal form leaves its tags, its items and its comments. Two forms
that agree without their lines are the same tree, down to the bytes and the encoding of each
string. No pass over lines changes what is left.
-/

namespace RubyNormalForm

namespace Item

mutual

/-- The item with every line below it erased. -/
def unlined : Item → Item
  | .node tag items _ comments => .node tag (unlinedAll items) none comments
  | item => item

/-- Erases the lines of each item of a sequence. -/
def unlinedAll : List Item → List Item
  | [] => []
  | item :: rest => unlined item :: unlinedAll rest

end

theorem unlinedAll_eq_map (items : List Item) : unlinedAll items = items.map unlined := by
  induction items with
  | nil => rfl
  | cons item rest ih => rw [unlinedAll, ih, List.map_cons]

@[simp]
theorem unlinedAll_append (items items' : List Item) :
    unlinedAll (items ++ items') = unlinedAll items ++ unlinedAll items' := by
  simp only [unlinedAll_eq_map, List.map_append]

mutual

theorem unlined_raiseLines (item : Item) : item.raiseLines.unlined = item.unlined := by
  cases item with
  | node tag items line comments =>
    simp only [raiseLines, unlined, unlinedAll_raiseLinesAll items]
  | _ => simp only [raiseLines]

theorem unlinedAll_raiseLinesAll (items : List Item) :
    unlinedAll (raiseLinesAll items) = unlinedAll items := by
  cases items with
  | nil => rfl
  | cons item rest =>
    simp only [raiseLinesAll, unlinedAll, unlined_raiseLines item,
      unlinedAll_raiseLinesAll rest]

end

mutual

theorem unlined_unlined (item : Item) : item.unlined.unlined = item.unlined := by
  cases item with
  | node tag items line comments => simp only [unlined, unlinedAll_unlinedAll items]
  | _ => simp only [unlined]

theorem unlinedAll_unlinedAll (items : List Item) :
    unlinedAll (unlinedAll items) = unlinedAll items := by
  cases items with
  | nil => rfl
  | cons item rest =>
    simp only [unlinedAll, unlined_unlined item, unlinedAll_unlinedAll rest]

end

end Item

namespace Form

/-- The node with every line in it erased. -/
def unlined (f : Form) : Form :=
  { f with items := Item.unlinedAll f.items, line := none }

@[simp] theorem unlined_tag (f : Form) : f.unlined.tag = f.tag := rfl

@[simp]
theorem unlined_unlined (f : Form) : f.unlined.unlined = f.unlined := by
  simp only [unlined, Item.unlinedAll_unlinedAll]

theorem toItem_unlined (f : Form) : f.toItem.unlined = f.unlined.toItem := by
  simp only [toItem, Item.unlined, unlined]

@[simp]
theorem unlined_withLine (f : Form) (line : Option Nat) :
    (f.withLine line).unlined = f.unlined := rfl

@[simp]
theorem unlined_raiseLines (f : Form) : f.raiseLines.unlined = f.unlined := by
  simp only [raiseLines, unlined, Item.unlinedAll_raiseLinesAll]

@[simp]
theorem unlined_of (tag : String) (items : List Item) :
    (Form.of tag items).unlined = Form.of tag (Item.unlinedAll items) := rfl

theorem unlinedAll_toItem (forms : List Form) :
    Item.unlinedAll (forms.map toItem) = (forms.map unlined).map toItem := by
  rw [Item.unlinedAll_eq_map, List.map_map, List.map_map]
  refine List.map_congr_left ?_
  intro f _
  exact f.toItem_unlined

@[simp]
theorem unlined_pushAll (f : Form) (forms : List Form) :
    (f.pushAll forms).unlined = f.unlined.pushAll (forms.map unlined) := by
  simp only [pushAll, unlined, Item.unlinedAll_append, unlinedAll_toItem]

theorem unlined_replaceAt (f : Form) (i : Nat) (e : Form) :
    (f.replaceAt i e.toItem).unlined = f.unlined.replaceAt i e.unlined.toItem := by
  simp only [unlined, replaceAt, Item.unlinedAll_eq_map, List.map_set, toItem_unlined]

theorem toItem_inj {f g : Form} (same : f.toItem = g.toItem) : f = g := by
  obtain ⟨tags, items, lines, comments⟩ := Item.node.inj same
  cases f
  cases g
  simp_all

end Form

theorem Item.form?_unlined (item : Item) :
    item.unlined.form? = item.form?.map Form.unlined := by
  cases item <;> rfl

/-- Settling the line of a result changes nothing but lines. -/
@[simp]
theorem unlined_settle (ctx : Context) (n : Raw.Node) (f : Form) :
    (settle ctx n f).unlined = f.unlined := by
  simp only [settle]
  split
  · rw [Form.unlined_raiseLines, Form.unlined_withLine]
  · exact Form.unlined_withLine f _

end RubyNormalForm
