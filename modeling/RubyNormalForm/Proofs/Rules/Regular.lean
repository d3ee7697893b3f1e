import RubyNormalForm.Proofs.Rules.Outcome
import RubyNormalForm.Proofs.Tree.Unlined

/-!
# Regular forms

A few facts hold of every normal form and are needed far from the rule that makes them true.
A negation is over nodes only, so a condition can always be taken out of it. A text that
denotes no bytes is tagged with the encoding of the source, so empty texts can be dropped or
put anywhere in a literal without changing the encoding of what is around them. And a string
begins with a text, so a literal that is taken apart never vanishes.
-/

namespace RubyNormalForm

namespace ByteString

variable {encoding : Encoding} {t : ByteString}

/-- If there are no bytes, the encoding is the given one. -/
def EmptyIn (encoding : Encoding) (s : ByteString) : Prop :=
  s.bytes = [] → s.encoding = encoding

theorem emptyIn_empty (encoding : Encoding) : (empty encoding).EmptyIn encoding := by
  intro _
  rfl

/-- If the whole is empty, its encoding is that of the second part. -/
theorem EmptyIn.append (s : ByteString) (ht : t.EmptyIn encoding) :
    (s.append t).EmptyIn encoding := by
  intro noBytes
  obtain ⟨sEmpty, tEmpty⟩ := List.append_eq_nil_iff.1 noBytes
  simp only [ByteString.append, sEmpty, List.isEmpty_nil, if_true]
  exact ht tEmpty

end ByteString

namespace Rules

/-- The piece with every line in it erased. -/
def Piece.unlined : Piece → Piece
  | .text s => .text s
  | .form f => .form f.unlined

/-- What a piece of a literal is like: an empty text is tagged with the encoding of the
source, and a node is not a string. -/
def Piece.Regular (encoding : Encoding) : Piece → Prop
  | .text s => s.EmptyIn encoding
  | .form f => f.tag ≠ "str"

theorem stringPieces_unlined (items : List Item) :
    stringPieces (Item.unlinedAll items) = (stringPieces items).map Piece.unlined := by
  cases items with
  | nil => rfl
  | cons item rest => cases item <;> rfl

theorem piecesOfItem_unlined (item : Item) :
    piecesOfItem item.unlined = (piecesOfItem item).map Piece.unlined := by
  cases item with
  | node tag items line comments =>
    simp only [Item.unlined, piecesOfItem]
    split
    · exact stringPieces_unlined items
    · rfl
  | _ => rfl

theorem interpolation_unlined (f : Form) : (interpolation f).unlined = interpolation f.unlined := by
  simp only [interpolation, Form.unlined_withLine, Form.unlined_of, Item.unlinedAll,
    Form.toItem_unlined]
  rfl

/-- Erasing lines and taking a string apart commute. -/
theorem piecesOf_unlined (f : Form) :
    piecesOf f.unlined = (piecesOf f).map Piece.unlined := by
  have items : f.unlined.items = f.items.map Item.unlined := Item.unlinedAll_eq_map f.items
  by_cases isStr : f.tag = "str"
  · simp only [piecesOf, Form.is, Form.unlined_tag, isStr, beq_self_eq_true, if_true]
    exact stringPieces_unlined f.items
  · by_cases isDstr : f.tag = "dstr"
    · simp [piecesOf, Form.is, isDstr, items, List.map_flatMap, List.flatMap_map,
        piecesOfItem_unlined]
    · simp [piecesOf, Form.is, isStr, isDstr, Piece.unlined, interpolation_unlined]

theorem stringPieces_text {items : List Item} {p : Piece} (member : p ∈ stringPieces items) :
    ∃ s, p = .text s := by
  rw [stringPieces] at member
  split at member
  · exact ⟨_, List.mem_singleton.1 member⟩
  · cases member

theorem tag_of_mem_piecesOfItem {item : Item} {f : Form} (member : .form f ∈ piecesOfItem item) :
    f.tag ≠ "str" := by
  unfold piecesOfItem at member
  split at member
  · simp at member
  · split at member
    · obtain ⟨s, isText⟩ := stringPieces_text member
      cases isText
    · rename_i notStr
      cases List.mem_singleton.1 member
      simpa using notStr
  · cases member

/-- No node among the pieces of a form is a string. -/
theorem tag_of_mem_piecesOf {f g : Form} (member : .form g ∈ piecesOf f) : g.tag ≠ "str" := by
  rw [piecesOf] at member
  split at member
  · obtain ⟨s, isText⟩ := stringPieces_text member
    cases isText
  · split at member
    · obtain ⟨item, -, inside⟩ := List.mem_flatMap.1 member
      exact tag_of_mem_piecesOfItem inside
    · cases List.mem_singleton.1 member
      simp [interpolation, Form.of, Form.withLine]

end Rules

open Rules

/-- What every normal form is like, given the encoding of the source. -/
structure Form.Regular (encoding : Encoding) (f : Form) : Prop where
  /-- The texts that the form contributes to a literal around it. -/
  texts : ∀ s, .text s ∈ piecesOf f → s.EmptyIn encoding
  /-- A negation is over nodes. -/
  negation : f.tag = "not" → ∀ item ∈ f.items, item.form?.isSome = true
  /-- A string begins with a text. -/
  head : f.tag = "str" ∨ f.tag = "dstr" → stringPieces f.items ≠ []

namespace Form

variable {encoding : Encoding} {f g : Form}

theorem Regular.pieces (h : f.Regular encoding) : ∀ p ∈ piecesOf f, p.Regular encoding := by
  intro p member
  cases p with
  | text s => exact h.texts s member
  | form g => exact tag_of_mem_piecesOf member

/-- The forms whose tag alone makes them regular. -/
def Ordinary (f : Form) : Prop :=
  f.tag ≠ "not" ∧ f.tag ≠ "str" ∧ f.tag ≠ "dstr"

theorem Ordinary.regular (h : f.Ordinary) : f.Regular encoding := by
  obtain ⟨notNot, notStr, notDstr⟩ := h
  refine ⟨?_, fun isNot => absurd isNot notNot, ?_⟩
  · intro s member
    simp [piecesOf, is, notStr, notDstr] at member
  · rintro (isStr | isDstr)
    · exact absurd isStr notStr
    · exact absurd isDstr notDstr

/-- Lines do not matter for regularity. -/
theorem Regular.of_unlined_eq (h : f.Regular encoding) (same : f.unlined = g.unlined) :
    g.Regular encoding := by
  have tags : f.tag = g.tag := by simpa using congrArg Form.tag same
  have items : Item.unlinedAll f.items = Item.unlinedAll g.items := congrArg Form.items same
  refine ⟨?_, ?_, ?_⟩
  · intro s member
    have erased : Piece.text s ∈ piecesOf g.unlined := by
      rw [piecesOf_unlined]
      exact List.mem_map.2 ⟨_, member, rfl⟩
    rw [← same, piecesOf_unlined] at erased
    obtain ⟨p, inside, isText⟩ := List.mem_map.1 erased
    cases p with
    | text t =>
      cases isText
      exact h.texts s inside
    | form f' => cases isText
  · intro isNot item member
    have erased : item.unlined ∈ Item.unlinedAll f.items := by
      rw [items, Item.unlinedAll_eq_map]
      exact List.mem_map_of_mem member
    rw [Item.unlinedAll_eq_map] at erased
    obtain ⟨item', member', twin⟩ := List.mem_map.1 erased
    have forms := congrArg Item.form? twin
    rw [Item.form?_unlined, Item.form?_unlined] at forms
    have isNode := h.negation (tags.trans isNot) item' member'
    rwa [← Option.isSome_map (f := Form.unlined), forms, Option.isSome_map] at isNode
  · intro isString none
    refine h.head (by rwa [tags]) ?_
    rw [← List.map_eq_nil_iff, ← stringPieces_unlined, items, stringPieces_unlined, none,
      List.map_nil]

/-- Only strings contribute texts: a plain one its own, an interpolated one those of its
items. -/
theorem text_mem_piecesOf {s : ByteString} : .text s ∈ piecesOf f ↔
    f.tag = "str" ∧ .text s ∈ stringPieces f.items ∨
      f.tag = "dstr" ∧ ∃ item ∈ f.items, .text s ∈ piecesOfItem item := by
  by_cases isStr : f.tag = "str"
  · simp [piecesOf, is, isStr]
  · by_cases isDstr : f.tag = "dstr"
    · simp [piecesOf, is, isDstr]
    · simp [piecesOf, is, isStr, isDstr]

/-- Comments do not matter for regularity. -/
theorem Regular.withComments (h : f.Regular encoding) (text : Option String) :
    ({ f with comments := text } : Form).Regular encoding := by
  refine ⟨?_, h.negation, h.head⟩
  intro s member
  have source := text_mem_piecesOf.1 member
  exact h.texts s (text_mem_piecesOf.2 source)

/-- More nodes under a regular form leave it regular. -/
theorem Regular.pushAll (h : f.Regular encoding) {forms : List Form}
    (each : ∀ g ∈ forms, g.Regular encoding) : (f.pushAll forms).Regular encoding := by
  refine ⟨?_, ?_, ?_⟩
  · intro s member
    obtain ⟨isStr, text⟩ | ⟨isDstr, item, inside, text⟩ := text_mem_piecesOf.1 member
    · refine h.texts s (text_mem_piecesOf.2 (.inl ⟨isStr, ?_⟩))
      cases items : f.items with
      | cons item rest => simpa [Form.pushAll, items, stringPieces] using text
      | nil => cases forms <;> simp [Form.pushAll, items, stringPieces, toItem] at text
    · obtain inside | inside := List.mem_append.1 inside
      · exact h.texts s (text_mem_piecesOf.2 (.inr ⟨isDstr, item, inside, text⟩))
      · obtain ⟨g, isForm, rfl⟩ := List.mem_map.1 inside
        refine (each g isForm).texts s (text_mem_piecesOf.2 (.inl ?_))
        by_cases isStr : g.tag = "str"
        · exact ⟨isStr, by simpa [toItem, piecesOfItem, isStr] using text⟩
        · simp [toItem, piecesOfItem, isStr] at text
  · intro isNot item member
    obtain member | member := List.mem_append.1 member
    · exact h.negation isNot item member
    · obtain ⟨g, -, rfl⟩ := List.mem_map.1 member
      rfl
  · intro isString
    have head := h.head isString
    cases items : f.items with
    | cons item rest => simpa [Form.pushAll, items, stringPieces] using head
    | nil => simp [items, stringPieces] at head

end Form

/-! ### Strings that are put together -/

namespace Rules

variable {encoding : Encoding} {ps : List Piece}

/-- The texts that the nodes after the head of a literal contribute. -/
theorem gather_texts (regular : ∀ p ∈ ps, p.Regular encoding) {pending : ByteString}
    (hp : pending.EmptyIn encoding) {f : Form} (member : f ∈ gather encoding pending ps)
    {s : ByteString} (text : .text s ∈ piecesOfItem f.toItem) : s.EmptyIn encoding := by
  have merged : ∀ t : ByteString, t.EmptyIn encoding → f ∈ mergedText t → s.EmptyIn encoding := by
    intro t ht member
    rw [mergedText] at member
    split at member
    · cases member
    · cases List.mem_singleton.1 member
      cases List.mem_singleton.1 text
      exact ht
  induction ps generalizing pending with
  | nil => exact merged pending hp member
  | cons p rest ih =>
    have others : ∀ q ∈ rest, q.Regular encoding := fun q inside => regular q (by simp [inside])
    cases p with
    | text t =>
      have ht : t.EmptyIn encoding := regular (.text t) (by simp)
      exact ih others (ByteString.EmptyIn.append pending ht) member
    | form g =>
      obtain member | member := List.mem_append.1 member
      · exact merged pending hp member
      · obtain rfl | member := List.mem_cons.1 member
        · have notStr : f.tag ≠ "str" := regular (.form f) (by simp)
          simp [Form.toItem, piecesOfItem, notStr] at text
        · exact ih others (ByteString.emptyIn_empty encoding) member

/-- What the parts of a literal are like. -/
theorem assemble_regular (regular : ∀ p ∈ ps, p.Regular encoding) {head : ByteString}
    (hh : head.EmptyIn encoding) :
    (assemble encoding head ps).1.EmptyIn encoding ∧
      ∀ forms, (assemble encoding head ps).2 = some forms → ∀ f ∈ forms, ∀ s,
        .text s ∈ piecesOfItem f.toItem → s.EmptyIn encoding := by
  induction ps generalizing head with
  | nil =>
    refine ⟨hh, ?_⟩
    intro forms found
    cases found
  | cons p rest ih =>
    have others : ∀ q ∈ rest, q.Regular encoding := fun q inside => regular q (by simp [inside])
    cases p with
    | text t =>
      have ht : t.EmptyIn encoding := regular (.text t) (by simp)
      exact ih others (ByteString.EmptyIn.append head ht)
    | form g =>
      refine ⟨hh, ?_⟩
      intro forms found f member s text
      cases found
      obtain rfl | member := List.mem_cons.1 member
      · have notStr : f.tag ≠ "str" := regular (.form f) (by simp)
        simp [Form.toItem, piecesOfItem, notStr] at text
      · exact gather_texts others (ByteString.emptyIn_empty encoding) member text

theorem stringForm_regular (regular : ∀ p ∈ ps, p.Regular encoding) :
    (stringForm encoding ps).Regular encoding := by
  obtain ⟨hh, nodes⟩ := assemble_regular regular (ByteString.emptyIn_empty encoding)
  unfold stringForm literalForm
  split
  · rename_i head assembled
    rw [assembled] at hh
    refine ⟨?_, fun isNot => absurd isNot (by simp [plainString, Form.of]), fun _ => nofun⟩
    intro s member
    cases List.mem_singleton.1 member
    exact hh
  · rename_i head forms assembled
    rw [assembled] at hh nodes
    refine ⟨?_, fun isNot => absurd isNot (by simp [Form.pushAll, Form.of]), fun _ => nofun⟩
    intro s member
    simp only [piecesOf, Form.is, Form.pushAll, Form.of] at member
    obtain ⟨item, inside, text⟩ := List.mem_flatMap.1 member
    obtain inside | inside := List.mem_append.1 inside
    · cases List.mem_singleton.1 inside
      cases List.mem_singleton.1 text
      exact hh
    · obtain ⟨f, isForm, rfl⟩ := List.mem_map.1 inside
      exact nodes forms rfl f isForm s text

end Rules

end RubyNormalForm
