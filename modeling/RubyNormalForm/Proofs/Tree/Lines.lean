import RubyNormalForm.Proofs.Tree.Everywhere

/-!
# What the passes over lines compute

A node is told by the path that leads to it from the root, an index for each step. After
raising, the line of a node is the first one met when its subtree is read with outer nodes
first; after spreading, it is the line of the nearest node on the way back to the root that had
one, and the line handed in if none had. Neither pass moves a node or changes a line that is
there, and a second pass finds nothing left to fill.
-/

namespace RubyNormalForm

namespace Item

theorem raiseLinesAll_eq_map (items : List Item) : raiseLinesAll items = items.map raiseLines := by
  induction items with
  | nil => rfl
  | cons item rest ih => rw [raiseLinesAll, ih, List.map_cons]

theorem spreadLinesAll_eq_map (line : Option Nat) (items : List Item) :
    spreadLinesAll line items = items.map (spreadLines line) := by
  induction items with
  | nil => rfl
  | cons item rest ih => rw [spreadLinesAll, ih, List.map_cons]

theorem form?_raiseLines (x : Item) : x.raiseLines.form? = x.form?.map Form.raiseLines := by
  cases x <;> rfl

theorem form?_spreadLines (x : Item) (line : Option Nat) :
    (x.spreadLines line).form? = x.form?.map (·.spreadLines line) := by
  cases x <;> rfl

/-! ### The line that rises -/

mutual

/-- The line that rises to the top of an item is the first one in it. -/
theorem line?_raiseLines (x : Item) : x.raiseLines.line? = x.nodes.findSome? Form.line := by
  cases x with
  | node tag items line comments =>
    rw [raiseLines, line?, nodes, List.findSome?_cons, firstLine_raiseLinesAll items]
    cases line <;> rfl
  | _ => rfl

theorem firstLine_raiseLinesAll (xs : List Item) :
    firstLine (raiseLinesAll xs) = (nodesIn xs).findSome? Form.line := by
  cases xs with
  | nil => rfl
  | cons x rest =>
    rw [raiseLinesAll, firstLine_cons, nodesIn, List.findSome?_append, line?_raiseLines x,
      firstLine_raiseLinesAll rest]

end

mutual

/-- Raises lines in one walk: the item with its lines raised, and the line at its top. -/
def raise : Item → Item × Option Nat
  | .node tag items line comments =>
    let (items, first) := raiseAll items
    (.node tag items (line.or first) comments, line.or first)
  | item => (item, none)

/-- Raises lines in each item of a sequence: the items, and the first line at the top of one
of them. -/
def raiseAll : List Item → List Item × Option Nat
  | [] => ([], none)
  | item :: rest =>
    let (item, line) := raise item
    let (rest, first) := raiseAll rest
    (item :: rest, line.or first)

end

mutual

/-- The walk hands on the line that it has left at the top. -/
theorem raise_eq (x : Item) : x.raise = (x.raiseLines, x.raiseLines.line?) := by
  cases x with
  | node tag items line comments => rw [raise, raiseAll_eq items, raiseLines, line?]
  | _ => rfl

theorem raiseAll_eq (xs : List Item) :
    raiseAll xs = (raiseLinesAll xs, firstLine (raiseLinesAll xs)) := by
  cases xs with
  | nil => rfl
  | cons x rest => rw [raiseAll, raise_eq x, raiseAll_eq rest, raiseLinesAll, firstLine_cons]

end

/-! ### A second pass -/

mutual

theorem raiseLines_raiseLines (x : Item) : x.raiseLines.raiseLines = x.raiseLines := by
  cases x with
  | node tag items line comments =>
    rw [raiseLines, raiseLines, raiseLinesAll_raiseLinesAll items, Option.or_assoc, Option.or_self]
  | _ => rfl

theorem raiseLinesAll_raiseLinesAll (xs : List Item) :
    raiseLinesAll (raiseLinesAll xs) = raiseLinesAll xs := by
  cases xs with
  | nil => rfl
  | cons x rest =>
    rw [raiseLinesAll, raiseLinesAll, raiseLines_raiseLines x, raiseLinesAll_raiseLinesAll rest]

end

mutual

theorem spreadLines_spreadLines (x : Item) (line : Option Nat) :
    (x.spreadLines line).spreadLines line = x.spreadLines line := by
  cases x with
  | node tag items own comments =>
    rw [spreadLines, spreadLines, Option.or_assoc, Option.or_self,
      spreadLinesAll_spreadLinesAll items]
  | _ => rfl

theorem spreadLinesAll_spreadLinesAll (xs : List Item) (line : Option Nat) :
    spreadLinesAll line (spreadLinesAll line xs) = spreadLinesAll line xs := by
  cases xs with
  | nil => rfl
  | cons x rest =>
    rw [spreadLinesAll, spreadLinesAll, spreadLines_spreadLines x,
      spreadLinesAll_spreadLinesAll rest]

end

end Item

namespace Form

/-- The node that a path leads to; each step goes to the item at an index. -/
def descendant? (f : Form) : List Nat → Option Form
  | [] => some f
  | i :: path => (f.formAt? i).bind (·.descendant? path)

/-- The node that a path leads to and all nodes above it, the nearest first. -/
def lineage? (f : Form) : List Nat → Option (List Form)
  | [] => some [f]
  | i :: path => (f.formAt? i).bind fun g => (g.lineage? path).map (· ++ [f])

/-- The two forms have the same paths, and each node of the second is the one of the first with
its lines filled in at most. -/
def FilledThroughout (f g : Form) : Prop :=
  ∀ path, Option.Rel Filled (f.descendant? path) (g.descendant? path)

theorem raiseLines_raiseLines (f : Form) : f.raiseLines.raiseLines = f.raiseLines := by
  refine toItem_inj ?_
  simp only [toItem_raiseLines, Item.raiseLines_raiseLines]

theorem spreadLines_spreadLines (f : Form) (line : Option Nat) :
    (f.spreadLines line).spreadLines line = f.spreadLines line := by
  refine toItem_inj ?_
  simp only [toItem_spreadLines, Item.spreadLines_spreadLines]

/-! ### One step of a path -/

theorem formAt?_raiseLines (f : Form) (i : Nat) :
    f.raiseLines.formAt? i = (f.formAt? i).map raiseLines := by
  rw [formAt?, formAt?, raiseLines, Item.raiseLinesAll_eq_map, List.getElem?_map]
  cases f.items[i]? with
  | none => rfl
  | some x => exact x.form?_raiseLines

theorem formAt?_spreadLines (f : Form) (line : Option Nat) (i : Nat) :
    (f.spreadLines line).formAt? i = (f.formAt? i).map (·.spreadLines (f.line.or line)) := by
  rw [formAt?, formAt?, spreadLines, Item.spreadLinesAll_eq_map, List.getElem?_map]
  cases f.items[i]? with
  | none => rfl
  | some x => exact x.form?_spreadLines _

/-! ### Whole paths -/

/-- Raising looks at nothing above a node. -/
theorem descendant?_raiseLines (f : Form) (path : List Nat) :
    f.raiseLines.descendant? path = (f.descendant? path).map raiseLines := by
  induction path generalizing f with
  | nil => rfl
  | cons i path ih =>
    rw [descendant?, descendant?, formAt?_raiseLines]
    cases f.formAt? i with
    | none => rfl
    | some g => exact ih g

theorem line_raiseLines (f : Form) : f.raiseLines.line = f.nodes.findSome? line := by
  have rises := Item.line?_raiseLines f.toItem
  rwa [← toItem_raiseLines] at rises

/-- On the way down the line handed on is the nearest one so far, so the induction is over the
path with the line handed in left open. -/
theorem line_descendant?_spreadLines (f : Form) (line : Option Nat) (path : List Nat) :
    ((f.spreadLines line).descendant? path).map Form.line =
      (f.lineage? path).map fun above => (above.findSome? Form.line).or line := by
  induction path generalizing f line with
  | nil =>
    simp only [descendant?, lineage?, Option.map_some, spreadLines, List.findSome?_singleton]
  | cons i path ih =>
    rw [descendant?, lineage?, formAt?_spreadLines]
    cases f.formAt? i with
    | none => rfl
    | some g =>
      simp only [Option.map_some, Option.bind_some, ih g, Option.map_map]
      refine congrArg (Option.map · _) (funext fun above => ?_)
      simp only [Function.comp_apply, List.findSome?_append, List.findSome?_singleton,
        Option.or_assoc]

theorem filledThroughout_raiseLines (f : Form) : f.FilledThroughout f.raiseLines := by
  intro path
  rw [descendant?_raiseLines]
  cases f.descendant? path with
  | none => exact .none
  | some g => exact .some g.filled_raiseLines

theorem filledThroughout_spreadLines (f : Form) (line : Option Nat) :
    f.FilledThroughout (f.spreadLines line) := by
  intro path
  induction path generalizing f line with
  | nil => exact .some (f.filled_spreadLines line)
  | cons i path ih =>
    rw [descendant?, descendant?, formAt?_spreadLines]
    cases f.formAt? i with
    | none => exact .none
    | some g => exact ih g _

/-- What the two passes make of a form, node by node. Raising gives a node the first line in its
own subtree, and the walk that raises hands on the line of the root. Spreading gives it the
nearest line at or above it, or else the line handed in. Both leave everything else and every
line that is there, and both are done after one pass. -/
theorem lines_rise_and_spread (f : Form) (line : Option Nat) :
    (∀ path, (f.raiseLines.descendant? path).map Form.line =
      (f.descendant? path).map fun g => g.nodes.findSome? Form.line) ∧
    f.toItem.raise = (f.raiseLines.toItem, f.raiseLines.line) ∧
    (∀ path, ((f.spreadLines line).descendant? path).map Form.line =
      (f.lineage? path).map fun above => (above.findSome? Form.line).or line) ∧
    f.FilledThroughout f.raiseLines ∧ f.FilledThroughout (f.spreadLines line) ∧
    f.raiseLines.raiseLines = f.raiseLines ∧
    (f.spreadLines line).spreadLines line = f.spreadLines line := by
  refine ⟨fun path => ?_, ?_, f.line_descendant?_spreadLines line, f.filledThroughout_raiseLines,
    f.filledThroughout_spreadLines line, f.raiseLines_raiseLines, f.spreadLines_spreadLines line⟩
  · rw [descendant?_raiseLines, Option.map_map]
    exact congrArg (Option.map · _) (funext line_raiseLines)
  · rw [Item.raise_eq, ← toItem_raiseLines]
    rfl

end Form

end RubyNormalForm
