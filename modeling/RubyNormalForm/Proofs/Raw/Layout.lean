import Mathlib
import RubyNormalForm.Raw.Reader

/-!
# Layouts of raw trees

A raw tree has many texts. They share its tokens and differ in what stands between them:
around every token that is not part of an array's first bracket, blanks and comments may be
inserted, and the last item of an array may have a comma after it. `Layout` says when a text
is one of them; it is stated on its own and does not look at the reader. The text that
`Raw.render` writes is the layout with a blank after each comma.

Not every tree can be told from its text. `Storable` collects what a tree must not hold for
that: no double, no name that is written bare but read otherwise, no number past 64 bits, and
no untagged sequence that looks like a node or like a position.
-/

namespace RubyNormalForm.Raw

/-- Blanks, and comments that end with their line. -/
inductive Gap : List Char → Prop where
  | nil : Gap []
  | blank {c : Char} {gap : List Char} (blank : c ∈ [' ', '\t', '\r', '\n']) (rest : Gap gap) :
      Gap (c :: gap)
  | comment {text gap : List Char} (line : '\n' ∉ text) (rest : Gap gap) :
      Gap ('#' :: (text ++ '\n' :: gap))

/-- Whether a value is written as a single token. -/
def isScalar : Raw → Bool
  | .node _ _ => false
  | .pos _ _ => false
  | _ => true

mutual

/-- A text of a value, from its first token to its last. -/
inductive Laid : Raw → List Char → Prop where
  | scalar {v : Raw} (h : v.isScalar = true) : Laid v v.render
  | tagged {tag : String} {children : List Raw} {text : List Char} (h : tag ≠ listTag)
      (row : Row (.sym tag :: children) text) : Laid (.node tag children) ('[' :: text)
  | untagged {children : List Raw} {text : List Char} (row : Row children text) :
      Laid (.node listTag children) ('[' :: text)
  | pos {line column : Nat} {text : List Char} (row : Row [.int line, .int column] text) :
      Laid (.pos line column) ('[' :: text)

/-- A text of the items of an array, from behind its opening bracket to its closing one.
A comma after the last item is a row of no items after a comma. -/
inductive Row : List Raw → List Char → Prop where
  | close {gap : List Char} (before : Gap gap) : Row [] (gap ++ [']'])
  | last {v : Raw} {text gap gap' : List Char} (before : Gap gap) (item : Laid v text)
      (after : Gap gap') : Row [v] (gap ++ (text ++ (gap' ++ [']'])))
  | more {v : Raw} {vs : List Raw} {text rest gap gap' : List Char} (before : Gap gap)
      (item : Laid v text) (after : Gap gap') (row : Row vs rest) :
      Row (v :: vs) (gap ++ (text ++ (gap' ++ ',' :: rest)))

end

/-- A text of a whole tree. -/
def Layout (v : Raw) (text : List Char) : Prop :=
  ∃ before inside after, Gap before ∧ Laid v inside ∧ Gap after ∧
    text = before ++ (inside ++ after)

/-- Whether an untagged sequence would be read as a node or as a position. -/
def LooksTagged : List Raw → Prop
  | .sym _ :: _ => True
  | [.int line, .int column] => 0 ≤ line ∧ 0 ≤ column
  | _ => False

mutual

/-- Whether a tree is determined by its text. -/
def Storable : Raw → Prop
  | .node tag children =>
    tag ≠ "=" ∧ (tag = listTag → ¬ LooksTagged children) ∧ StorableAll children
  | .sym name => name ≠ "="
  | .int n => Number.fits64 n = true
  | .float _ => False
  | .pos line column => line ≤ 2 ^ 63 - 1 ∧ column ≤ 2 ^ 63 - 1
  | .str _ => True
  | .bool _ => True
  | .nil => True

/-- Whether all trees of a sequence are determined by their texts. -/
def StorableAll : List Raw → Prop
  | [] => True
  | child :: rest => Storable child ∧ StorableAll rest

end

/-! ### The text that is written -/

theorem Gap.space : Gap [' '] :=
  .blank (by decide) .nil

/-- Items divided by a comma and a blank are a row, behind any gap. -/
theorem row_intercalate {items : List Raw} (laid : ∀ item ∈ items, Laid item item.render)
    {gap : List Char} (before : Gap gap) :
    Row items (gap ++ (List.intercalate [',', ' '] (items.map render) ++ [']'])) := by
  induction items generalizing gap with
  | nil => exact .close before
  | cons item items ih =>
    have first := laid item List.mem_cons_self
    have others : ∀ item ∈ items, Laid item item.render := by
      intro other mem
      exact laid other (List.mem_cons_of_mem _ mem)
    cases items with
    | nil =>
      have row := Row.last before first .nil
      simpa [List.intercalate] using row
    | cons item' items =>
      have row := Row.more before first .nil (ih others .space)
      simpa [List.intercalate] using row

theorem renderAll_eq_map (children : List Raw) : renderAll children = children.map render := by
  induction children with
  | nil => rfl
  | cons child children ih => rw [renderAll, ih, List.map_cons]

/-- Items in brackets, divided by commas and blanks, are an array. -/
theorem row_bracketed {items : List Raw} (laid : ∀ item ∈ items, Laid item item.render) :
    ∃ text, bracketed (items.map render) = '[' :: text ∧ Row items text :=
  ⟨_, rfl, row_intercalate laid .nil⟩

mutual

/-- The text that is written for a value is a layout of it. -/
theorem laid_render (v : Raw) : Laid v v.render := by
  match v with
  | .node tag children =>
    have inside := laid_render_of_mem children
    by_cases h : tag = listTag
    · subst h
      obtain ⟨text, written, row⟩ := row_bracketed inside
      have tagless : tagItem listTag = [] := rfl
      rw [render, tagless, List.nil_append, renderAll_eq_map, written]
      exact .untagged row
    · have items : ∀ item ∈ .sym tag :: children, Laid item item.render := by
        intro item mem
        obtain rfl | mem := List.mem_cons.mp mem
        · exact .scalar rfl
        · exact inside item mem
      obtain ⟨text, written, row⟩ := row_bracketed items
      have tagged : tagItem tag = [render (.sym tag)] := by
        simp [tagItem, h, render]
      rw [render, tagged, renderAll_eq_map, List.singleton_append, ← List.map_cons, written]
      exact .tagged h row
  | .pos line column =>
    have items : ∀ item ∈ [Raw.int line, Raw.int column], Laid item item.render := by
      intro item mem
      simp only [List.mem_cons, List.not_mem_nil, or_false] at mem
      obtain rfl | rfl := mem
      · exact .scalar rfl
      · exact .scalar rfl
    obtain ⟨text, written, row⟩ := row_bracketed items
    -- A number of lines is written like the integer it is.
    have same : render (.pos line column) = bracketed ([.int line, .int column].map render) := rfl
    rw [same, written]
    exact .pos row
  | .str _ => exact .scalar rfl
  | .sym _ => exact .scalar rfl
  | .int _ => exact .scalar rfl
  | .float _ => exact .scalar rfl
  | .bool _ => exact .scalar rfl
  | .nil => exact .scalar rfl

theorem laid_render_of_mem (children : List Raw) : ∀ child ∈ children, Laid child child.render := by
  match children with
  | [] => simp
  | first :: rest =>
    intro child mem
    obtain h | mem := List.mem_cons.mp mem
    · exact h ▸ laid_render first
    · exact laid_render_of_mem rest child mem

end

theorem layout_render (v : Raw) : Layout v v.render :=
  ⟨[], v.render, [], .nil, laid_render v, .nil, by simp⟩

/-! ### What is read where a row ends -/

/-- The characters that can stand behind a token. -/
def delimiters : List Char :=
  [' ', '\t', '\r', '\n', '#', ',', ']']

/-- What may follow a token: nothing, or a character that no token goes on with. -/
def Delimited (rest : List Char) : Prop :=
  ∀ c tail, rest = c :: tail → c ∈ delimiters

theorem delimited_nil : Delimited [] := by
  intro c tail h
  cases h

theorem Delimited.cons {c : Char} (h : c ∈ delimiters) (tail : List Char) :
    Delimited (c :: tail) := by
  intro c' tail' eq
  cases eq
  exact h

/-- A gap before something that may follow a token may follow it too. -/
theorem Gap.delimited {gap rest : List Char} (h : Gap gap) (hr : Delimited rest) :
    Delimited (gap ++ rest) := by
  cases h with
  | nil => exact hr
  | blank blank _ =>
    apply Delimited.cons
    simp only [delimiters, List.mem_cons, List.not_mem_nil, or_false] at blank ⊢
    tauto
  | comment _ _ => exact .cons (by decide) _

end RubyNormalForm.Raw
