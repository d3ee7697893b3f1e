import Mathlib.Data.List.Forall2
import RubyNormalForm.Normalize

/-!
# Forms that are alike

Two forms are alike if they have the same tags, items and comments, except that their lines
need only stand in a given relation, and so do the encodings of their strings. The bytes of
strings are the same, and the strings of the first form may be known to have a property that
joining strings keeps. Every operation by which forms are put together, and both passes over
their lines, keep forms alike.
-/

namespace RubyNormalForm

/-- How the lines and the encodings of two forms correspond, and what is known of the strings
of the first one. -/
structure Likeness where
  line : Nat → Nat → Prop
  encoding : Encoding → Encoding → Prop
  text : ByteString → Prop := fun _ => True
  append : ∀ {s t : ByteString}, text s → text t → text (s.append t) := by intros; trivial

/-- Two optional values are first present at the same place. -/
theorem optionRel_or {α β : Type} {r : α → β → Prop} {a c : Option α} {b d : Option β}
    (first : Option.Rel r a b) (second : Option.Rel r c d) : Option.Rel r (a.or c) (b.or d) := by
  cases first with
  | some related => exact .some related
  | none => exact second

theorem optionRel_getD {α β : Type} {r : α → β → Prop} {a : Option α} {b : Option β} {c : α} {d : β}
    (h : Option.Rel r a b) (fallback : r c d) : r (a.getD c) (b.getD d) := by
  cases h with
  | some related => exact related
  | none => exact fallback

theorem optionRel_map {α β γ δ : Type} {r : α → β → Prop} {s : γ → δ → Prop} {a : Option α}
    {b : Option β} {f : α → γ} {g : β → δ} (h : Option.Rel r a b)
    (next : ∀ x y, r x y → s (f x) (g y)) : Option.Rel s (a.map f) (b.map g) := by
  cases h with
  | some related => exact .some (next _ _ related)
  | none => exact .none

theorem optionRel_toList {α β : Type} {r : α → β → Prop} {a : Option α} {b : Option β}
    (h : Option.Rel r a b) : List.Forall₂ r a.toList b.toList := by
  cases h with
  | some related => exact .cons related .nil
  | none => exact .nil

theorem optionRel_isSome {α β : Type} {r : α → β → Prop} {a : Option α} {b : Option β}
    (h : Option.Rel r a b) : a.isSome = b.isSome := by
  cases h <;> rfl

theorem isEmpty_eq_of_forall₂ {α β : Type} {r : α → β → Prop} {xs : List α} {ys : List β}
    (h : List.Forall₂ r xs ys) : xs.isEmpty = ys.isEmpty := by
  cases h <;> rfl

/-! ### Strings -/

namespace ByteString

variable {k : Likeness} {s s' t t' : ByteString}

/-- The same bytes, with corresponding encodings. -/
structure Like (k : Likeness) (s t : ByteString) : Prop where
  bytes : s.bytes = t.bytes
  encoding : k.encoding s.encoding t.encoding
  text : k.text s

theorem Like.isEmpty (h : Like k s t) : s.isEmpty = t.isEmpty := by
  simp only [ByteString.isEmpty, h.bytes]

theorem Like.toText (h : Like k s t) : s.toText = t.toText := by
  simp only [ByteString.toText, h.bytes]

theorem Like.append (first : Like k s s') (second : Like k t t') :
    Like k (s.append t) (s'.append t') := by
  refine ⟨?_, ?_, k.append first.text second.text⟩
  · simp only [ByteString.append, first.bytes, second.bytes]
  · simp only [ByteString.append, first.bytes]
    split
    · exact second.encoding
    · exact first.encoding

end ByteString

/-! ### Items and nodes -/

namespace Item

/-- Whether an item is neither a node nor a string. -/
def isScalar : Item → Bool
  | .node _ _ _ _ => false
  | .str _ => false
  | _ => true

/-- The items are the same but for corresponding lines and encodings. -/
inductive Like (k : Likeness) : Item → Item → Prop
  | node {tag : String} {items items' : List Item} {line line' : Option Nat}
      {comments : Option String} (inside : List.Forall₂ (Like k) items items')
      (lines : Option.Rel k.line line line') :
      Like k (.node tag items line comments) (.node tag items' line' comments)
  | str {s t : ByteString} (same : s.Like k t) : Like k (.str s) (.str t)
  | scalar {item : Item} (plain : item.isScalar = true) : Like k item item

@[simp] theorem like_nil (k : Likeness) : Like k .nil .nil := .scalar rfl

@[simp] theorem like_bool (k : Likeness) (b : Bool) : Like k (.bool b) (.bool b) := .scalar rfl

@[simp] theorem like_sym (k : Likeness) (name : String) : Like k (.sym name) (.sym name) :=
  .scalar rfl

@[simp] theorem like_int (k : Likeness) (n : Int) : Like k (.int n) (.int n) := .scalar rfl

end Item

namespace Form

variable {k : Likeness} {f f' g g' : Form}

/-- The nodes are the same but for corresponding lines and encodings. -/
structure Like (k : Likeness) (f g : Form) : Prop where
  tag : f.tag = g.tag
  items : List.Forall₂ (Item.Like k) f.items g.items
  line : Option.Rel k.line f.line g.line
  comments : f.comments = g.comments

@[simp]
theorem like_toItem : Item.Like k f.toItem g.toItem ↔ f.Like k g := by
  constructor
  · intro h
    obtain ⟨tag, items, line, comments⟩ := f
    obtain ⟨tag', items', line', comments'⟩ := g
    cases h with
    | node inside lines => exact ⟨rfl, inside, lines, rfl⟩
    | scalar plain => cases plain
  · rintro ⟨tag, inside, lines, comments⟩
    simp only [toItem, tag, comments]
    exact .node inside lines

@[simp]
theorem like_itemOf {f g : Option Form} :
    Item.Like k (itemOf f) (itemOf g) ↔ Option.Rel (Form.Like k) f g := by
  constructor
  · intro h
    cases f with
    | none =>
      cases g with
      | none => exact .none
      | some g => nomatch h
    | some f =>
      cases g with
      | none => nomatch h
      | some g => exact .some (like_toItem.1 h)
  · intro h
    cases h with
    | none => exact .scalar rfl
    | some related => exact like_toItem.2 related

@[simp]
theorem like_of {tag tag' : String} {items items' : List Item} :
    (Form.of tag items).Like k (Form.of tag' items') ↔
      tag = tag' ∧ List.Forall₂ (Item.Like k) items items' := by
  constructor
  · intro h
    exact ⟨h.tag, h.items⟩
  · rintro ⟨sameTag, inside⟩
    exact ⟨sameTag, inside, .none, rfl⟩

/-- Corresponding nodes are corresponding items. -/
theorem like_map_toItem {fs gs : List Form} (h : List.Forall₂ (Form.Like k) fs gs) :
    List.Forall₂ (Item.Like k) (fs.map toItem) (gs.map toItem) := by
  rw [List.forall₂_map_left_iff, List.forall₂_map_right_iff]
  exact h.imp fun _ _ => like_toItem.2

theorem like_group (tag : String) {fs gs : List Form} (h : List.Forall₂ (Form.Like k) fs gs) :
    (Form.group tag fs).Like k (Form.group tag gs) :=
  ⟨rfl, like_map_toItem h, .none, rfl⟩

theorem Like.push (h : f.Like k g) {x y : Item} (last : Item.Like k x y) :
    (f.push x).Like k (g.push y) :=
  ⟨h.tag, List.rel_append h.items (.cons last .nil), h.line, h.comments⟩

theorem Like.pushAll (h : f.Like k g) {fs gs : List Form}
    (more : List.Forall₂ (Form.Like k) fs gs) : (f.pushAll fs).Like k (g.pushAll gs) :=
  ⟨h.tag, List.rel_append h.items (like_map_toItem more), h.line, h.comments⟩

theorem Like.push? (h : f.Like k g) {more more' : Option Form}
    (last : Option.Rel (Form.Like k) more more') : (f.push? more).Like k (g.push? more') := by
  cases last with
  | none => exact h
  | some related => exact h.push (like_toItem.2 related)

theorem Like.withLine (h : f.Like k g) {line line' : Option Nat}
    (lines : Option.Rel k.line line line') : (f.withLine line).Like k (g.withLine line') :=
  ⟨h.tag, h.items, optionRel_or h.line lines, h.comments⟩

theorem Like.is (h : f.Like k g) (tag : String) : f.is tag = g.is tag := by
  rw [Form.is, Form.is, h.tag]

end Form

/-! ### Passes over lines -/

namespace Item

variable {k : Likeness}

theorem Like.line? {x y : Item} (h : Like k x y) : Option.Rel k.line x.line? y.line? := by
  cases h with
  | node inside lines => exact lines
  | str same => exact .none
  | scalar plain =>
    cases x with
    | node tag items line comments => cases plain
    | _ => exact .none

theorem like_firstLine {xs ys : List Item} (h : List.Forall₂ (Like k) xs ys) :
    Option.Rel k.line (firstLine xs) (firstLine ys) := by
  induction h with
  | nil => exact .none
  | cons first others ih =>
    rename_i x y xs ys
    have lines := first.line?
    simp only [firstLine, List.findSome?_cons] at ih ⊢
    revert lines
    cases x.line? <;> cases y.line? <;> intro lines
    · exact ih
    · cases lines
    · cases lines
    · exact lines

mutual

theorem like_raiseLines (x : Item) {y : Item} (h : Like k x y) :
    Like k x.raiseLines y.raiseLines := by
  cases x with
  | node tag items line comments =>
    cases h with
    | node inside lines =>
      have raised := like_raiseLinesAll items inside
      simp only [raiseLines]
      exact .node raised (optionRel_or lines (like_firstLine raised))
    | scalar plain => cases plain
  | str s =>
    cases h with
    | str same => exact .str same
    | scalar plain => cases plain
  | _ =>
    cases h
    exact .scalar rfl

theorem like_raiseLinesAll (xs : List Item) {ys : List Item} (h : List.Forall₂ (Like k) xs ys) :
    List.Forall₂ (Like k) (raiseLinesAll xs) (raiseLinesAll ys) := by
  cases xs with
  | nil =>
    cases h
    exact .nil
  | cons x rest =>
    cases h with
    | cons first others => exact .cons (like_raiseLines x first) (like_raiseLinesAll rest others)

end

mutual

theorem like_spreadLines (x : Item) {y : Item} (h : Like k x y) {line line' : Option Nat}
    (above : Option.Rel k.line line line') : Like k (x.spreadLines line) (y.spreadLines line') := by
  cases x with
  | node tag items own comments =>
    cases h with
    | node inside lines =>
      have settled := optionRel_or lines above
      simp only [spreadLines]
      exact .node (like_spreadLinesAll items inside settled) settled
    | scalar plain => cases plain
  | str s =>
    cases h with
    | str same => exact .str same
    | scalar plain => cases plain
  | _ =>
    cases h
    exact .scalar rfl

theorem like_spreadLinesAll (xs : List Item) {ys : List Item} (h : List.Forall₂ (Like k) xs ys)
    {line line' : Option Nat} (above : Option.Rel k.line line line') :
    List.Forall₂ (Like k) (spreadLinesAll line xs) (spreadLinesAll line' ys) := by
  cases xs with
  | nil =>
    cases h
    exact .nil
  | cons x rest =>
    cases h with
    | cons first others =>
      exact .cons (like_spreadLines x first above) (like_spreadLinesAll rest others above)

end

end Item

namespace Form

variable {k : Likeness} {f g : Form}

theorem Like.raiseLines (h : f.Like k g) : f.raiseLines.Like k g.raiseLines := by
  have raised := Item.like_raiseLinesAll f.items h.items
  exact ⟨h.tag, raised, optionRel_or h.line (Item.like_firstLine raised), h.comments⟩

theorem Like.spreadLines (h : f.Like k g) {line line' : Option Nat}
    (above : Option.Rel k.line line line') : (f.spreadLines line).Like k (g.spreadLines line') := by
  have settled := optionRel_or h.line above
  exact ⟨h.tag, Item.like_spreadLinesAll f.items h.items settled, settled, h.comments⟩

theorem Like.settleLines (h : f.Like k g) : f.settleLines.Like k g.settleLines :=
  h.raiseLines.spreadLines h.raiseLines.line

end Form

end RubyNormalForm
