import RubyNormalForm.Proofs.Rules.Agreement.Literal

/-!
# Agreement of strings, symbols, commands and regular expressions

Whether two texts are merged or an empty one is dropped depends on bytes only, and a merged
text takes its encoding from corresponding places in both runs. The fragments of a literal
are therefore put together in the same way in both.
-/

namespace RubyNormalForm.Rules

variable {k : Likeness} {p : Raw → Prop}

/-! ### Pieces and fragments -/

/-- Texts with the same bytes, or nodes that are alike. -/
inductive Piece.Like (k : Likeness) : Piece → Piece → Prop
  | text {s t : ByteString} (same : s.Like k t) : Like k (.text s) (.text t)
  | form {f g : Form} (same : f.Like k g) : Like k (.form f) (.form g)

/-- The same text before it is read, or pieces that are alike. -/
inductive Fragment.Like (k : Likeness) : Fragment → Fragment → Prop
  | text (source : String) (opener : Option String) :
      Like k (.text source opener) (.text source opener)
  | piece {a b : Piece} (same : a.Like k b) : Like k (.piece a) (.piece b)

theorem like_plainString {s t : ByteString} (h : s.Like k t) :
    (plainString s).Like k (plainString t) :=
  Form.like_of.2 ⟨rfl, .cons (.str h) .nil⟩

theorem like_interpolation {f g : Form} (h : f.Like k g) :
    (interpolation f).Like k (interpolation g) :=
  Form.Like.withLine (by simp [h]) h.line

theorem like_stringPieces {xs ys : List Item} (h : List.Forall₂ (Item.Like k) xs ys) :
    List.Forall₂ (Piece.Like k) (stringPieces xs) (stringPieces ys) := by
  cases h with
  | nil => exact .nil
  | cons first others =>
    rename_i x y xs ys
    cases first with
    | node inside lines => exact .nil
    | str same => exact .cons (.text same) .nil
    | scalar plain =>
      cases x with
      | str s => cases plain
      | _ => exact .nil

theorem like_piecesOfItem {x y : Item} (h : Item.Like k x y) :
    List.Forall₂ (Piece.Like k) (piecesOfItem x) (piecesOfItem y) := by
  cases h with
  | node inside lines =>
    simp only [piecesOfItem]
    split
    · exact like_stringPieces inside
    · exact .cons (.form ⟨rfl, inside, lines, rfl⟩) .nil
  | str same => exact .cons (.text same) .nil
  | scalar plain =>
    cases x with
    | node tag items line comments => cases plain
    | str s => cases plain
    | _ => exact .nil

theorem like_piecesOf {f g : Form} (h : f.Like k g) :
    List.Forall₂ (Piece.Like k) (piecesOf f) (piecesOf g) := by
  simp only [piecesOf, h.is]
  split
  · exact like_stringPieces h.items
  · split
    · exact List.rel_flatMap h.items fun _ _ => like_piecesOfItem
    · exact .cons (.form (like_interpolation h)) .nil

theorem like_map_piece {as bs : List Piece} (h : List.Forall₂ (Piece.Like k) as bs) :
    List.Forall₂ (Fragment.Like k) (as.map .piece) (bs.map .piece) := by
  rw [List.forall₂_map_left_iff, List.forall₂_map_right_iff]
  exact h.imp fun _ _ => .piece

section Fragments

variable (hp : Raw.Hereditary p) {inner : Normalizer} (each : inner.Respects k p)
variable {ctx ctx' : Context} (alike : Context.Like k p ctx ctx')
include hp each alike

theorem agree_fragmentsOf {n : Raw.Node} (hn : p n.toRaw) :
    Agree (List.Forall₂ (Fragment.Like k)) (fragmentsOf inner ctx n)
      (fragmentsOf inner ctx' n) := by
  simp only [fragmentsOf]
  split
  · exact .bind_same fun text _ => .pure (.cons (.text _ _) .nil)
  · split
    · refine (agree_body hp each alike (hp.slot hn 0)).bind fun f g bodies => ?_
      cases bodies with
      | none =>
        have empty := Form.Like.withLine (f := .of "evstr" []) (g := .of "evstr" []) (by simp)
          (alike.lineOf hp hn)
        exact .pure (.cons (.piece (.form empty)) .nil)
      | some same => exact .pure (like_map_piece (like_piecesOf same))
    · split
      · refine agree_child each alike hp hn fun f g same => .pure ?_
        exact .cons (.piece (.form (like_interpolation same))) .nil
      · refine (each ctx ctx' alike n hn).bind fun f g same => .pure ?_
        exact like_map_piece (like_piecesOf same)

theorem agree_fragments {parts : List Raw} (hc : ∀ part ∈ parts, p part) :
    Agree (List.Forall₂ (Fragment.Like k)) (fragments inner ctx parts)
      (fragments inner ctx' parts) := by
  induction parts with
  | nil => exact .ok .nil
  | cons child rest ih =>
    have others := ih fun part member => hc part (by simp [member])
    have here := hc child (by simp)
    cases child with
    | node tag children =>
      refine (agree_fragmentsOf hp each alike (n := ⟨tag, children⟩) here).bind
        fun as bs first => ?_
      exact others.bind fun cs ds more => .pure (List.rel_append first more)
    | _ =>
      unfold fragments
      dsimp only
      split
      · exact others
      · exact .error _

end Fragments

/-! ### Reading and merging texts -/

namespace Fragment

theorem Like.source? {a b : Fragment} (h : a.Like k b) : a.source? = b.source? := by
  cases h <;> rfl

theorem Like.opener? {a b : Fragment} (h : a.Like k b) : a.opener? = b.opener? := by
  cases h <;> rfl

theorem Like.decode {ctx ctx' : Context} (alike : Context.Like k p ctx ctx')
    (forced : Option Quoting) {a b : Fragment} (h : a.Like k b) (replaced : Option String) :
    (a.decode ctx.charset forced replaced).Like k (b.decode ctx'.charset forced replaced) := by
  cases h with
  | text source opener => exact .text (alike.decode _ _)
  | piece same => exact same

end Fragment

/-- What is the same of corresponding fragments is the same of the whole sequences. -/
theorem map_eq_of_like {α : Type} {as bs : List Fragment} {f : Fragment → α}
    (same : ∀ a b, Fragment.Like k a b → f a = f b) (h : List.Forall₂ (Fragment.Like k) as bs) :
    as.map f = bs.map f := by
  induction h with
  | nil => rfl
  | cons first others ih => rw [List.map_cons, List.map_cons, same _ _ first, ih]

theorem like_zipWith_decode {ctx ctx' : Context} (alike : Context.Like k p ctx ctx')
    (forced : Option Quoting) {as bs : List Fragment} (h : List.Forall₂ (Fragment.Like k) as bs)
    (texts : List (Option String)) :
    List.Forall₂ (Piece.Like k) (List.zipWith (Fragment.decode ctx.charset forced) as texts)
      (List.zipWith (Fragment.decode ctx'.charset forced) bs texts) := by
  induction h generalizing texts with
  | nil => exact .nil
  | cons first others ih =>
    cases texts with
    | nil => exact .nil
    | cons text rest => exact .cons (first.decode alike forced text) (ih rest)

/-- A heredoc is dedented in both runs or in neither, and by the same width. -/
theorem like_decode {ctx ctx' : Context} (alike : Context.Like k p ctx ctx')
    (forced : Option Quoting) {as bs : List Fragment} (h : List.Forall₂ (Fragment.Like k) as bs) :
    List.Forall₂ (Piece.Like k) (decode ctx.charset forced as) (decode ctx'.charset forced bs) := by
  have texts := map_eq_of_like (fun _ _ => Fragment.Like.source?) h
  have squiggly : as.any Fragment.isSquiggly = bs.any Fragment.isSquiggly := by
    have each (fragments : List Fragment) : fragments.any Fragment.isSquiggly =
        (fragments.map Fragment.opener?).any (·.any Heredoc.isSquiggly) := by
      rw [List.any_map]
      rfl
    rw [each, each, map_eq_of_like (fun _ _ => Fragment.Like.opener?) h]
  simp only [decode, texts, squiggly]
  exact like_zipWith_decode alike forced h _

theorem like_mergedText {s t : ByteString} (h : s.Like k t) :
    List.Forall₂ (Form.Like k) (mergedText s) (mergedText t) := by
  simp only [mergedText, h.isEmpty]
  split
  · exact .nil
  · exact .cons (like_plainString h) .nil

section Merging

variable {e e' : Encoding} (fresh : (ByteString.empty e).Like k (.empty e'))
include fresh

theorem like_gather {as bs : List Piece} (h : List.Forall₂ (Piece.Like k) as bs)
    {s t : ByteString} (pending : s.Like k t) :
    List.Forall₂ (Form.Like k) (gather e s as) (gather e' t bs) := by
  induction h generalizing s t with
  | nil => exact like_mergedText pending
  | cons first others ih =>
    cases first with
    | text same => exact ih (pending.append same)
    | form same =>
      exact List.rel_append (like_mergedText pending) (.cons same (ih fresh))

/-- Both literals are plain, or both are interpolated. -/
theorem like_assemble {as bs : List Piece} (h : List.Forall₂ (Piece.Like k) as bs)
    {s t : ByteString} (before : s.Like k t) :
    ∃ head head', head.Like k head' ∧
      ((assemble e s as = (head, none) ∧ assemble e' t bs = (head', none)) ∨
        ∃ forms forms', List.Forall₂ (Form.Like k) forms forms' ∧
          assemble e s as = (head, some forms) ∧ assemble e' t bs = (head', some forms')) := by
  induction h generalizing s t with
  | nil => exact ⟨s, t, before, .inl ⟨rfl, rfl⟩⟩
  | cons first others ih =>
    cases first with
    | text same => exact ih (before.append same)
    | form same =>
      have rest := like_gather fresh others fresh
      exact ⟨s, t, before, .inr ⟨_, _, .cons same rest, rfl, rfl⟩⟩

theorem like_literalForm {plain : ByteString → Form}
    (plains : ∀ s t, s.Like k t → (plain s).Like k (plain t)) (tag : String) {as bs : List Piece}
    (h : List.Forall₂ (Piece.Like k) as bs) :
    (literalForm e plain tag as).Like k (literalForm e' plain tag bs) := by
  obtain ⟨head, head', heads, ⟨left, right⟩ | ⟨forms, forms', related, left, right⟩⟩ :=
    like_assemble fresh h fresh
  · simp only [literalForm, left, right]
    exact plains head head' heads
  · simp only [literalForm, left, right]
    exact Form.Like.pushAll (Form.like_of.2 ⟨rfl, .cons (.str heads) .nil⟩) related

theorem like_regexpForm (flags : Regexp.Flags) {as bs : List Piece}
    (h : List.Forall₂ (Piece.Like k) as bs) :
    (regexpForm e flags as).Like k (regexpForm e' flags bs) := by
  obtain ⟨head, head', heads, ⟨left, right⟩ | ⟨forms, forms', related, left, right⟩⟩ :=
    like_assemble fresh h fresh
  · simp only [regexpForm, left, right, heads.toText]
    exact Form.like_of.2 ⟨rfl, .cons (.scalar rfl) .nil⟩
  · have pushed := Form.Like.pushAll (Form.like_of.2 ⟨rfl, .cons (.str heads) .nil⟩) related
      (f := .of (if flags.once then "dregx_once" else "dregx") [.str head])
    simp only [regexpForm, left, right]
    split
    · exact pushed
    · exact pushed.push (by simp)

end Merging

/-- A way to put pieces together that keeps what is alike alike. -/
def Assembles (k : Likeness) (form : Encoding → List Piece → Form) : Prop :=
  ∀ {e e' as bs}, (ByteString.empty e).Like k (.empty e') → List.Forall₂ (Piece.Like k) as bs →
    (form e as).Like k (form e' bs)

theorem assembles_stringForm : Assembles k stringForm :=
  fun fresh => like_literalForm fresh (fun _ _ => like_plainString) "dstr"

theorem assembles_symbolForm : Assembles k symbolForm :=
  fun fresh => like_literalForm fresh
    (fun _ _ same => by simp [literal, same.toText]) "dsym"

theorem assembles_commandForm : Assembles k commandForm :=
  fun fresh => like_literalForm fresh
    (fun _ _ same => Form.like_of.2 ⟨rfl, .cons (.str same) .nil⟩) "dxstr"

/-! ### Rules -/

theorem agree_pieces (hp : Raw.Hereditary p) {inner : Normalizer} (each : inner.Respects k p)
    {ctx ctx' : Context} (alike : Context.Like k p ctx ctx') {parts : List Raw}
    (hc : ∀ part ∈ parts, p part) :
    Agree (List.Forall₂ (Piece.Like k)) (pieces inner ctx parts) (pieces inner ctx' parts) :=
  (agree_fragments hp each alike hc).map fun _ _ => like_decode alike none

theorem quotedRule_respects (hp : Raw.Hereditary p) {form : Encoding → List Piece → Form}
    (assembles : Assembles k form) : Rule.Respects (quotedRule form) k p := by
  intro inner each ctx ctx' alike n hn
  refine .bind_same fun parts found => ?_
  refine (agree_pieces hp each alike (hp.contentParts (hp.slot hn 0) found)).bind
    fun as bs same => .pure ?_
  exact assembles alike.empty same

theorem contentRule_respects (hp : Raw.Hereditary p) : Rule.Respects contentRule k p := by
  intro inner each ctx ctx' alike n hn
  refine (agree_pieces hp each alike (hp.child hn)).bind fun as bs same => .pure ?_
  exact assembles_stringForm alike.empty same

theorem textTokenRule_respects (hp : Raw.Hereditary p) : Rule.Respects textTokenRule k p := by
  intro inner each ctx ctx' alike n hn
  refine (agree_pieces hp each alike (by simpa using hn)).bind fun as bs same => .pure ?_
  exact assembles_stringForm alike.empty same

theorem concatenationRule_respects (hp : Raw.Hereditary p) :
    Rule.Respects concatenationRule k p := by
  intro inner each ctx ctx' alike n hn
  refine agree_child each alike hp hn fun left left' lefts => ?_
  refine agree_child each alike hp hn fun right right' rights => .pure ?_
  have joined := List.rel_append (like_piecesOf lefts) (like_piecesOf rights)
  exact (assembles_stringForm alike.empty joined).withLine lefts.line

theorem symbolRule_respects : Rule.Respects symbolRule k p := by
  intro inner each ctx ctx' alike n hn
  exact .bind_same fun name _ => .pure (by simp [literal])

theorem regexpRule_respects (hp : Raw.Hereditary p) : Rule.Respects regexpRule k p := by
  intro inner each ctx ctx' alike n hn
  refine .bind_same fun parts found => ?_
  refine (agree_fragments hp each alike (hp.contentParts (hp.slot hn 0) found)).bind
    fun as bs same => .pure ?_
  have opening : as.findSome? Fragment.opener? = bs.findSome? Fragment.opener? := by
    have mapped (fragments : List Fragment) : fragments.findSome? Fragment.opener? =
        (fragments.map Fragment.opener?).findSome? id := by
      rw [List.findSome?_map]
      rfl
    rw [mapped, mapped, map_eq_of_like (fun _ _ => Fragment.Like.opener?) same]
  rw [opening]
  exact like_regexpForm alike.empty _ (like_decode alike _ same)

theorem agree_wordForms (hp : Raw.Hereditary p) {form : Encoding → List Piece → Form}
    (assembles : Assembles k form) {inner : Normalizer} (each : inner.Respects k p)
    {ctx ctx' : Context} (alike : Context.Like k p ctx ctx') {children : List Raw}
    (hc : ∀ c ∈ children, p c) :
    Agree (List.Forall₂ (Form.Like k)) (wordForms form inner ctx children)
      (wordForms form inner ctx' children) := by
  induction children with
  | nil => exact .ok .nil
  | cons child rest ih =>
    refine (agree_pieces hp each alike (hp.wordParts (hc child (by simp)))).bind
      fun as bs first => ?_
    refine (ih fun c member => hc c (by simp [member])).bind fun fs gs others => .pure ?_
    exact .cons (assembles alike.empty first) others

theorem wordsRule_respects (hp : Raw.Hereditary p) {form : Encoding → List Piece → Form}
    (assembles : Assembles k form) : Rule.Respects (wordsRule form) k p := by
  intro inner each ctx ctx' alike n hn
  exact (agree_wordForms hp assembles each alike (hp.child hn)).map fun _ _ => like_array

end RubyNormalForm.Rules
