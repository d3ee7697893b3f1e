import RubyNormalForm.Tree.Basic

/-!
# Lines of normal forms

Nodes that were made up on the way have no line of their own. Two passes fill the gaps: lines
rise from children to parents that have none, and spread from parents to children that have
none. A line that is there is never changed.
-/

namespace RubyNormalForm

namespace Item

/-- The line of the first item that has one. -/
def firstLine (items : List Item) : Option Nat :=
  items.findSome? line?

theorem firstLine_cons (x : Item) (rest : List Item) :
    firstLine (x :: rest) = x.line?.or (firstLine rest) := by
  rw [firstLine, List.findSome?_cons]
  cases x.line? <;> rfl

mutual

/-- Gives every node without a line the first line found below it. -/
def raiseLines : Item → Item
  | .node tag items line comments =>
    let items := raiseLinesAll items
    .node tag items (line.or (firstLine items)) comments
  | item => item

/-- Raises lines in each item of a sequence. -/
def raiseLinesAll : List Item → List Item
  | [] => []
  | item :: rest => raiseLines item :: raiseLinesAll rest

end

mutual

/-- Gives every node without a line the line of the nearest node above it, or the given line
if there is none. -/
def spreadLines (line : Option Nat) : Item → Item
  | .node tag items own comments =>
    .node tag (spreadLinesAll (own.or line) items) (own.or line) comments
  | item => item

/-- Spreads a line over each item of a sequence. -/
def spreadLinesAll (line : Option Nat) : List Item → List Item
  | [] => []
  | item :: rest => spreadLines line item :: spreadLinesAll line rest

end

end Item

namespace Form

/-- Gives every node without a line the first line found below it. -/
def raiseLines (f : Form) : Form :=
  let items := Item.raiseLinesAll f.items
  { f with items := items, line := f.line.or (Item.firstLine items) }

/-- Gives every node without a line the line of the nearest node above it, or the given line
if there is none. -/
def spreadLines (f : Form) (line : Option Nat) : Form :=
  { f with items := Item.spreadLinesAll (f.line.or line) f.items, line := f.line.or line }

theorem toItem_raiseLines (f : Form) : f.raiseLines.toItem = f.toItem.raiseLines := by
  simp only [raiseLines, toItem, Item.raiseLines]

theorem toItem_spreadLines (f : Form) (line : Option Nat) :
    (f.spreadLines line).toItem = f.toItem.spreadLines line := by
  simp only [spreadLines, toItem, Item.spreadLines]

/-- Lines raised to the root and spread from there. -/
def settleLines (f : Form) : Form :=
  let raised := f.raiseLines
  raised.spreadLines raised.line

end Form

end RubyNormalForm
