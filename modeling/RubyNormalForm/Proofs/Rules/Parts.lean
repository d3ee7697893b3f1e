import Mathlib
import RubyNormalForm.Proofs.Heredoc
import RubyNormalForm.Proofs.Rules.Interpolation

/-!
# Literals read as they are written

What a literal contributes to its normal form is said part by part: a text token its text, to be
read by its quoting when the whole body has been dedented, and code the node it interpolates, or
what is read off its normal form if that is a string. The normal form of the literal reads like
its parts in source order.

A part that is code may become several fragments. Dedenting sees an interpolation for each of
them, which comes to the same as one.
-/

namespace RubyNormalForm.Rules

/-! ### The parts of a literal -/

/-- A part of a literal: a text that is still to be read, or the runs of code. -/
inductive Part where
  | text (source : String) (opener : Option String)
  | code (runs : List Run)

namespace Part

/-- The text of a part; `none` for code. -/
def source? : Part → Option String
  | .text source _ => some source
  | .code _ => none

/-- The opener of a part that is text. -/
def opener? : Part → Option String
  | .text _ opener => opener
  | .code _ => none

/-- The runs of a part, with another text in the place of its own. -/
def runs (cs : Charset) (forced : Option Quoting) : Part → Option String → List Run
  | .text source opener, replaced =>
    [.text ((forced.getD (.ofOpener opener)).decode cs (replaced.getD source)).bytes]
  | .code runs, _ => runs

/-- The runs of several parts. Texts are read by the forced quoting or by their own; if one is
of a squiggly heredoc, all are dedented before that. -/
def readAll (cs : Charset) (forced : Option Quoting) (parts : List Part) : List Run :=
  let texts := parts.map source?
  let squiggly := parts.any fun part => part.opener?.any Heredoc.isSquiggly
  let texts := if squiggly then Heredoc.dedent texts else texts
  (List.zipWith (runs cs forced) parts texts).flatten

end Part

/-- The part of a literal that a node stands for. -/
inductive PartOf (ctx : Context) (n : Raw.Node) : Part → Prop
  | text {source : String} (isText : n.tag = "@tstring_content")
      (isSource : n.slot 0 = .str source) : PartOf ctx n (.text source (openerOf (n.slot 2)))
  | void (isCode : n.tag = "string_embexpr")
      (nothing : body normalizeNode ctx (n.slot 0) = .ok none) :
      PartOf ctx n (.code [.node ((Form.of "evstr" []).withLine (ctx.lineOf n))])
  | code {f : Form} (isCode : n.tag = "string_embexpr")
      (isForm : body normalizeNode ctx (n.slot 0) = .ok (some f)) :
      PartOf ctx n (.code f.embedded)
  | name {m : Raw.Node} {f : Form} (isName : n.tag = "string_dvar") (inside : n.slot 0 = m.toRaw)
      (isForm : normalizeNode ctx m = .ok f) : PartOf ctx n (.code [.node (interpolation f)])
  | other {f : Form} (isOther : n.tag ∉ ["@tstring_content", "string_embexpr", "string_dvar"])
      (isForm : normalizeNode ctx n = .ok f) : PartOf ctx n (.code f.embedded)

/-- The parts of a literal with the given children, of which some may be absent. -/
def PartsOf (ctx : Context) (children : List Raw) (parts : List Part) : Prop :=
  ∃ nodes : List Raw.Node,
    children.filter (fun child => !child.isAbsent) = nodes.map Raw.Node.toRaw ∧
      List.Forall₂ (PartOf ctx) nodes parts

/-- The fragments that a part becomes. Code becomes at least one. -/
inductive Part.Becomes : Part → List Fragment → Prop
  | text (source : String) (opener : Option String) :
      Becomes (.text source opener) [.text source opener]
  | code (ps : List Piece) (nonempty : ps ≠ []) : Becomes (.code (ps.map Piece.run)) (ps.map .piece)

/-- A string that is taken apart does not vanish. -/
theorem piecesOf_ne_nil {encoding : Encoding} {f : Form} (regular : f.Regular encoding) :
    piecesOf f ≠ [] := by
  by_cases isStr : f.tag = "str"
  · simpa [piecesOf, Form.is, isStr] using regular.head (.inl isStr)
  · by_cases isDstr : f.tag = "dstr"
    · have head := regular.head (.inr isDstr)
      rw [stringPieces] at head
      split at head
      · rename_i s isText
        obtain ⟨rest, items⟩ := List.head?_eq_some_iff.1 isText
        simp [piecesOf, Form.is, isDstr, items, piecesOfItem]
      · exact absurd rfl head
    · simp [piecesOf, Form.is, isStr, isDstr]

theorem becomes_piecesOf {encoding : Encoding} {f : Form} (regular : f.Regular encoding) :
    (Part.code f.embedded).Becomes ((piecesOf f).map .piece) := by
  rw [← map_run_piecesOf]
  exact .code _ (piecesOf_ne_nil regular)

theorem regular_of_body {ctx : Context} {child : Raw} {f : Form}
    (found : body normalizeNode ctx child = .ok (some f)) : f.Regular ctx.encoding := by
  obtain ⟨forms, isForms, wrapped⟩ := map_eq_ok.1 found
  have inside := ensures_statements (normalizeNode_regular ctx) (fun _ ordinary => ordinary.regular)
    child forms isForms
  exact inv_of_wrap (fun _ ordinary => ordinary.regular) inside f wrapped

theorem slot_of_stringAt {n : Raw.Node} {i : Nat} {text : String}
    (found : n.stringAt i = .ok text) : n.slot i = .str text := by
  rw [Raw.Node.stringAt] at found
  split at found
  · rename_i isText
    cases found
    exact isText
  · cases found

theorem slot_of_nodeAt {n m : Raw.Node} {i : Nat} (found : n.nodeAt i = .ok m) :
    n.slot i = m.toRaw := by
  rw [Raw.Node.nodeAt] at found
  split at found
  · rename_i isNode
    cases found
    exact isNode
  · cases found

theorem exists_partOf {ctx : Context} {n : Raw.Node} {found : List Fragment}
    (isFound : fragmentsOf normalizeNode ctx n = .ok found) :
    ∃ part, PartOf ctx n part ∧ part.Becomes found := by
  by_cases isText : n.tag = "@tstring_content"
  · simp only [fragmentsOf, Raw.Node.is, isText, beq_self_eq_true, if_true] at isFound
    obtain ⟨source, isSource, made⟩ := bind_eq_ok.1 isFound
    cases made
    exact ⟨_, .text isText (slot_of_stringAt isSource), .text _ _⟩
  by_cases isCode : n.tag = "string_embexpr"
  · simp only [fragmentsOf, Raw.Node.is, isCode, beq_self_eq_true, if_true] at isFound
    obtain ⟨inside, isBody, made⟩ := bind_eq_ok.1 isFound
    cases inside with
    | none =>
      cases made
      exact ⟨_, .void isCode isBody, .code [.form _] (List.cons_ne_nil _ _)⟩
    | some f =>
      cases made
      exact ⟨_, .code isCode isBody, becomes_piecesOf (regular_of_body isBody)⟩
  by_cases isName : n.tag = "string_dvar"
  · simp only [fragmentsOf, Raw.Node.is, isName, beq_self_eq_true, if_true] at isFound
    obtain ⟨m, inside, isFound⟩ := bind_eq_ok.1 isFound
    obtain ⟨f, isForm, made⟩ := bind_eq_ok.1 isFound
    cases made
    exact ⟨_, .name isName (slot_of_nodeAt inside) isForm, .code [.form _] (List.cons_ne_nil _ _)⟩
  · simp only [fragmentsOf, Raw.Node.is, isText, isCode, isName, beq_iff_eq, if_false] at isFound
    obtain ⟨f, isForm, made⟩ := bind_eq_ok.1 isFound
    cases made
    refine ⟨_, .other (by simp [isText, isCode, isName]) isForm, ?_⟩
    exact becomes_piecesOf (normalizeNode_regular ctx n f isForm)

/-- The fragments of a literal are those of its parts in order. -/
theorem exists_partsOf {ctx : Context} {children : List Raw} {found : List Fragment}
    (isFound : fragments normalizeNode ctx children = .ok found) :
    ∃ parts made, PartsOf ctx children parts ∧ List.Forall₂ Part.Becomes parts made ∧
      found = made.flatten := by
  induction children generalizing found with
  | nil =>
    cases isFound
    exact ⟨[], [], ⟨[], rfl, .nil⟩, .nil, rfl⟩
  | cons child rest ih =>
    cases child with
    | node tag inside =>
      obtain ⟨first, isFirst, isFound⟩ := bind_eq_ok.1 isFound
      obtain ⟨others, isOthers, joined⟩ := bind_eq_ok.1 isFound
      cases joined
      obtain ⟨part, isPart, becomes⟩ := exists_partOf isFirst
      obtain ⟨parts, made, ⟨nodes, present, each⟩, become, rfl⟩ := ih isOthers
      refine ⟨part :: parts, first :: made, ⟨⟨tag, inside⟩ :: nodes, ?_, .cons isPart each⟩,
        .cons becomes become, rfl⟩
      rw [List.filter_cons_of_pos rfl, present]
      rfl
    | _ =>
      simp only [fragments] at isFound
      split at isFound
      · rename_i absent
        obtain ⟨parts, made, ⟨nodes, present, each⟩, become, same⟩ := ih isFound
        refine ⟨parts, made, ⟨nodes, ?_, each⟩, become, same⟩
        rw [List.filter_cons_of_neg (by simp [absent]), present]
      · cases isFound

/-! ### Reading the fragments of parts -/

theorem zipWith_replicate_length {α β γ : Type} (f : α → β → γ) (xs : List α) (y : β) :
    List.zipWith f xs (List.replicate xs.length y) = xs.map (f · y) := by
  induction xs with
  | nil => rfl
  | cons x xs ih =>
    rw [List.length_cons, List.replicate_succ, List.zipWith_cons_cons, ih, List.map_cons]

section Reading

variable {parts : List Part} {made : List (List Fragment)}
variable (become : List.Forall₂ Part.Becomes parts made)
include become

theorem source?_flatten :
    made.flatten.map Fragment.source? =
      Heredoc.repeatEach (made.map List.length) (parts.map Part.source?) := by
  induction become with
  | nil => rfl
  | cons first others ih =>
    rw [List.flatten_cons, List.map_append, ih, List.map_cons, List.map_cons,
      Heredoc.repeatEach_cons]
    cases first with
    | text source opener => rfl
    | code ps nonempty =>
      have unread : Fragment.source? ∘ Fragment.piece = fun _ => none := rfl
      rw [List.map_map, unread, List.map_const', List.length_map]
      rfl

theorem repeats_source? :
    Heredoc.Repeats (made.map List.length) (parts.map Part.source?) := by
  rw [Heredoc.Repeats, List.forall₂_map_left_iff, List.forall₂_map_right_iff]
  refine List.Forall₂.imp ?_ become.flip
  intro found part becomes
  cases becomes with
  | text source opener => exact ⟨Nat.one_pos, fun _ => rfl⟩
  | code ps nonempty =>
    refine ⟨?_, fun isText => absurd rfl isText⟩
    rw [List.length_map]
    exact List.length_pos_iff.2 nonempty

theorem findSome?_opener?_flatten :
    made.flatten.findSome? Fragment.opener? = parts.findSome? Part.opener? := by
  induction become with
  | nil => rfl
  | cons first others ih =>
    rw [List.flatten_cons, List.findSome?_append, ih, List.findSome?_cons]
    cases first with
    | text source opener => cases opener <;> rfl
    | code ps nonempty =>
      have none : (ps.map Fragment.piece).findSome? Fragment.opener? = none :=
        List.findSome?_eq_none_iff.2 (by simp [Fragment.opener?])
      rw [none]
      rfl

theorem any_isSquiggly_flatten :
    made.flatten.any Fragment.isSquiggly =
      parts.any fun part => part.opener?.any Heredoc.isSquiggly := by
  induction become with
  | nil => rfl
  | cons first others ih =>
    rw [List.flatten_cons, List.any_append, ih, List.any_cons]
    cases first with
    | text source opener => simp [Fragment.isSquiggly, Fragment.opener?, Part.opener?]
    | code ps nonempty => simp [Fragment.isSquiggly, Fragment.opener?, Part.opener?]

/-- Each fragment of a part is given the text that the part is given. -/
theorem map_run_zipWith_decode (cs : Charset) (forced : Option Quoting)
    (texts : List (Option String)) :
    (List.zipWith (Fragment.decode cs forced) made.flatten
      (Heredoc.repeatEach (made.map List.length) texts)).map Piece.run =
      (List.zipWith (Part.runs cs forced) parts texts).flatten := by
  induction become generalizing texts with
  | nil => rfl
  | @cons part found parts made first others ih =>
    cases texts with
    | nil => simp [Heredoc.repeatEach]
    | cons text texts =>
      have own : (List.zipWith (Fragment.decode cs forced) found
          (List.replicate found.length text)).map Piece.run = part.runs cs forced text := by
        rw [zipWith_replicate_length]
        cases first with
        | text source opener => rfl
        | code ps nonempty =>
          rw [List.map_map, List.map_map]
          rfl
      rw [List.flatten_cons, List.map_cons, Heredoc.repeatEach_cons,
        List.zipWith_append (by simp), List.map_append, own, ih]
      rfl

/-- The pieces of a literal read like its parts. -/
theorem map_run_decode (cs : Charset) (forced : Option Quoting) :
    (decode cs forced made.flatten).map Piece.run = Part.readAll cs forced parts := by
  simp only [decode, Part.readAll, source?_flatten become, any_isSquiggly_flatten become]
  split
  · rw [Heredoc.dedent_repeatEach (repeats_source? become)]
    exact map_run_zipWith_decode become cs forced _
  · exact map_run_zipWith_decode become cs forced _

end Reading

theorem noStrings_decode {ctx : Context} {children : List Raw} {found : List Fragment}
    (isFound : fragments normalizeNode ctx children = .ok found) (forced : Option Quoting) :
    NoStrings (decode ctx.charset forced found) :=
  .of_regular (decode_regular
    (ensures_fragments (normalizeNode_regular ctx) children found isFound) forced)

/-- A literal that is put together from children reads like their parts. -/
theorem isLiteral_of_fragments {form : Encoding → List Piece → Form}
    (literalizes : Literalizes form) {ctx : Context} {children : List Raw} {found : List Fragment}
    (isFound : fragments normalizeNode ctx children = .ok found) :
    ∃ parts, PartsOf ctx children parts ∧
      found.findSome? Fragment.opener? = parts.findSome? Part.opener? ∧
      ∀ forced, (form ctx.encoding (decode ctx.charset forced found)).IsLiteral
        (Part.readAll ctx.charset forced parts) := by
  obtain ⟨parts, made, isParts, become, rfl⟩ := exists_partsOf isFound
  refine ⟨parts, isParts, findSome?_opener?_flatten become, fun forced => ?_⟩
  rw [← map_run_decode become]
  exact literalizes _ _ (noStrings_decode isFound forced)

/-! ### Literals read as they are written -/

/-- The rule for the node has the given result. -/
def Handles (ctx : Context) (n : Raw.Node) (f : Form) : Prop :=
  ∃ rule, rule? n.tag = some rule ∧ rule normalizeNode ctx n = .ok f

/-- The runs of the source of a literal. -/
inductive SourceOf (ctx : Context) (n : Raw.Node) : List Run → Prop
  | quoted {children : List Raw} {parts : List Part} (isQuoted : n.tag ∈ quotedTags)
      (contents : contentParts (n.slot 0) = .ok children) (each : PartsOf ctx children parts) :
      SourceOf ctx n (Part.readAll ctx.charset none parts)
  | regexp {children : List Raw} {parts : List Part} {opening : Char}
      (isRegexp : n.tag = "regexp_literal") (contents : contentParts (n.slot 0) = .ok children)
      (each : PartsOf ctx children parts)
      (opens : opening = ((parts.findSome? Part.opener?).map Literal.delimiter).getD '/') :
      SourceOf ctx n (Part.readAll ctx.charset (some (.regexp opening)) parts)
  | pair {left right : Raw.Node} {f g : Form} (isPair : n.tag = "string_concat")
      (first : n.slot 0 = left.toRaw) (second : n.slot 1 = right.toRaw)
      (isFirst : normalizeNode ctx left = .ok f) (isSecond : normalizeNode ctx right = .ok g) :
      SourceOf ctx n (f.embedded ++ g.embedded)

/-- The tags of literals. -/
def literalTags : List String :=
  "string_concat" :: "regexp_literal" :: quotedTags

/-- The tags of lists of literals. -/
def wordListTags : List String :=
  ["words", "qwords", "symbols", "qsymbols"]

theorem rule?_of_mem_quotedTags {tag : String} (isQuoted : tag ∈ quotedTags) :
    ∃ form, Literalizes form ∧ rule? tag = some (quotedRule form) := by
  simp only [quotedTags, List.mem_cons, List.not_mem_nil, or_false] at isQuoted
  obtain rfl | rfl | rfl := isQuoted
  · exact ⟨stringForm, literalizes_stringForm, rfl⟩
  · exact ⟨symbolForm, literalizes_symbolForm, rfl⟩
  · exact ⟨commandForm, literalizes_commandForm, rfl⟩

theorem rule?_of_mem_wordListTags {tag : String} (isList : tag ∈ wordListTags) :
    ∃ form, Literalizes form ∧ rule? tag = some (wordsRule form) := by
  simp only [wordListTags, List.mem_cons, List.not_mem_nil, or_false] at isList
  obtain rfl | rfl | rfl | rfl := isList
  · exact ⟨stringForm, literalizes_stringForm, rfl⟩
  · exact ⟨stringForm, literalizes_stringForm, rfl⟩
  · exact ⟨symbolForm, literalizes_symbolForm, rfl⟩
  · exact ⟨symbolForm, literalizes_symbolForm, rfl⟩

/-- The rules for literals and their lists look at smaller nodes only. -/
theorem exists_localAt {n : Raw.Node} (isLiteral : n.tag ∈ literalTags ++ wordListTags)
    (ctx : Context) : ∃ rule, rule? n.tag = some rule ∧ rule.LocalAt ctx n := by
  obtain isLiteral | isList := List.mem_append.1 isLiteral
  · simp only [literalTags, List.mem_cons] at isLiteral
    obtain isPair | isRegexp | isQuoted := isLiteral
    · refine ⟨concatenationRule, by rw [isPair]; rfl, fun inner inner' agree => ?_⟩
      exact concatenationRule_congr agree ctx (Nat.le_refl _)
    · refine ⟨regexpRule, by rw [isRegexp]; rfl, fun inner inner' agree => ?_⟩
      exact regexpRule_congr agree ctx (Nat.le_refl _)
    · obtain ⟨form, -, found⟩ := rule?_of_mem_quotedTags (by simpa [quotedTags] using isQuoted)
      refine ⟨_, found, fun inner inner' agree => ?_⟩
      exact quotedRule_congr agree ctx form (Nat.le_refl _)
  · obtain ⟨form, -, found⟩ := rule?_of_mem_wordListTags isList
    refine ⟨_, found, fun inner inner' agree => ?_⟩
    exact wordsRule_congr agree ctx form (Nat.le_refl _)

/-- The node is the normal form of an element of a word list. -/
def IsWord (ctx : Context) (child : Raw) (word : Form) : Prop :=
  ∃ parts, PartsOf ctx (wordParts child) parts ∧
    word.IsLiteral (Part.readAll ctx.charset none parts)

theorem isWord_wordForms {form : Encoding → List Piece → Form} (literalizes : Literalizes form)
    {ctx : Context} {children : List Raw} {words : List Form}
    (isWords : wordForms form normalizeNode ctx children = .ok words) :
    List.Forall₂ (IsWord ctx) children words := by
  induction children generalizing words with
  | nil =>
    cases isWords
    exact .nil
  | cons child rest ih =>
    obtain ⟨ps, isPieces, isWords⟩ := bind_eq_ok.1 isWords
    obtain ⟨others, isOthers, made⟩ := bind_eq_ok.1 isWords
    cases made
    obtain ⟨fragments, isFound, rfl⟩ := map_eq_ok.1 isPieces
    obtain ⟨parts, isParts, -, isLiteral⟩ := isLiteral_of_fragments literalizes isFound
    exact .cons ⟨parts, isParts, isLiteral none⟩ (ih isOthers)

section Handled

variable {ctx : Context} {n : Raw.Node} {f : Form}

theorem isLiteral_quoted (isQuoted : n.tag ∈ quotedTags) (handled : Handles ctx n f) :
    ∃ source, SourceOf ctx n source ∧ f.IsLiteral source := by
  obtain ⟨form, literalizes, isRule⟩ := rule?_of_mem_quotedTags isQuoted
  obtain ⟨rule, found, succeeds⟩ := handled
  cases isRule.symm.trans found
  obtain ⟨children, contents, succeeds⟩ := bind_eq_ok.1 succeeds
  obtain ⟨ps, isPieces, made⟩ := bind_eq_ok.1 succeeds
  cases made
  obtain ⟨fragments, isFound, rfl⟩ := map_eq_ok.1 isPieces
  obtain ⟨parts, isParts, -, isLiteral⟩ := isLiteral_of_fragments literalizes isFound
  exact ⟨_, .quoted isQuoted contents isParts, isLiteral none⟩

theorem isLiteral_regexp (isRegexp : n.tag = "regexp_literal") (handled : Handles ctx n f) :
    ∃ source, SourceOf ctx n source ∧ f.IsLiteral source := by
  have isRule : rule? n.tag = some regexpRule := by
    rw [isRegexp]
    rfl
  obtain ⟨rule, found, succeeds⟩ := handled
  cases isRule.symm.trans found
  obtain ⟨children, contents, succeeds⟩ := bind_eq_ok.1 succeeds
  obtain ⟨fragments, isFound, made⟩ := bind_eq_ok.1 succeeds
  cases made
  obtain ⟨parts, isParts, opening, isLiteral⟩ :=
    isLiteral_of_fragments (literalizes_regexpForm (regexpFlags (n.slot 1))) isFound
  refine ⟨_, .regexp isRegexp contents isParts rfl, ?_⟩
  rw [opening]
  exact isLiteral _

theorem isLiteral_pair (isPair : n.tag = "string_concat") (handled : Handles ctx n f) :
    ∃ source, SourceOf ctx n source ∧ f.IsLiteral source := by
  have isRule : rule? n.tag = some concatenationRule := by
    rw [isPair]
    rfl
  obtain ⟨rule, found, succeeds⟩ := handled
  cases isRule.symm.trans found
  obtain ⟨left, leftAt, succeeds⟩ := bind_eq_ok.1 succeeds
  obtain ⟨g, isLeft, succeeds⟩ := bind_eq_ok.1 succeeds
  obtain ⟨right, rightAt, succeeds⟩ := bind_eq_ok.1 succeeds
  obtain ⟨h, isRight, made⟩ := bind_eq_ok.1 succeeds
  cases made
  refine ⟨_, .pair isPair (slot_of_nodeAt leftAt) (slot_of_nodeAt rightAt) isLeft isRight, ?_⟩
  have noStrings : NoStrings (piecesOf g ++ piecesOf h) := by
    intro f member
    obtain member | member := List.mem_append.1 member
    · exact tag_of_mem_piecesOf member
    · exact tag_of_mem_piecesOf member
  rw [← map_run_piecesOf, ← map_run_piecesOf, ← List.map_append]
  exact (literalizes_stringForm ctx.encoding _ noStrings).withLine g.line

theorem isLiteral_words (isList : n.tag ∈ wordListTags) (handled : Handles ctx n f) :
    ∃ words, f = array words ∧ List.Forall₂ (IsWord ctx) n.children words := by
  obtain ⟨form, literalizes, isRule⟩ := rule?_of_mem_wordListTags isList
  obtain ⟨rule, found, succeeds⟩ := handled
  cases isRule.symm.trans found
  obtain ⟨words, isWords, rfl⟩ := map_eq_ok.1 succeeds
  exact ⟨words, rfl, isWord_wordForms literalizes isWords⟩

end Handled

/-- Literals are in normal form and read as they are written. Whatever the rule for a string, two
adjacent strings, a symbol in quotes, a command or a regular expression gives is the normal form
of a literal with the runs of its source, and so is each element that the rule for a list of
words or symbols gives. The normal form of such a node is the result of its rule with the line
settled. -/
theorem literals_read_source (ctx : Context) :
    (∀ (n : Raw.Node) (f : Form), n.tag ∈ literalTags → Handles ctx n f →
      ∃ source, SourceOf ctx n source ∧ f.IsLiteral source) ∧
    (∀ (n : Raw.Node) (f : Form), n.tag ∈ wordListTags → Handles ctx n f →
      ∃ words, f = array words ∧ List.Forall₂ (IsWord ctx) n.children words) ∧
    ∀ (n : Raw.Node) (g : Form), n.tag ∈ literalTags ++ wordListTags →
      normalizeNode ctx n = .ok g → ∃ f, Handles ctx n f ∧ g = settle ctx n f := by
  refine ⟨?_, fun n f isList handled => isLiteral_words isList handled, ?_⟩
  · intro n f isLiteral handled
    obtain isPair | isLiteral := List.mem_cons.1 isLiteral
    · exact isLiteral_pair isPair handled
    · obtain isRegexp | isQuoted := List.mem_cons.1 isLiteral
      · exact isLiteral_regexp isRegexp handled
      · exact isLiteral_quoted isQuoted handled
  · intro n g isLiteral succeeds
    obtain ⟨rule, found, isLocal⟩ := exists_localAt isLiteral ctx
    rw [normalizeNode_of_localAt found isLocal] at succeeds
    obtain ⟨f, isForm, settled⟩ := map_eq_ok.1 succeeds
    exact ⟨f, ⟨rule, found, isForm⟩, settled.symm⟩

/-- A string with the given parts. -/
def stringOf (parts : List Raw) : Raw.Node :=
  ⟨"string_literal", [.node "string_content" parts]⟩

/-- A text of a string in double quotes. -/
def textOf (text : String) : Raw :=
  .node "@tstring_content" [.str text, .pos 1 0, .str "\x22"]

/-- A text, a call and an empty text: one text and one node are read. -/
theorem call_reads_source :
    let ctx : Context := { filename := "a.rb", lineOffset := 0, charset := ⟨.utf8, false⟩ }
    let call : Raw := .node "string_embexpr" [.node Raw.listTag
      [.node "vcall" [.node "@ident" [.str "b", .pos 1 4]]]]
    let code : Item := .node "evstr"
      [.node "call" [.nil, .sym "b"] (some 1) none] (some 1) none
    let f : Form := .of "dstr" [.str ⟨[0x61], .utf8⟩, code]
    Handles ctx (stringOf [textOf "a", call, textOf ""]) f ∧
      ∃ source, SourceOf ctx (stringOf [textOf "a", call, textOf ""]) source ∧
        f.IsLiteral source := by
  intro ctx call code f
  have handled : Handles ctx (stringOf [textOf "a", call, textOf ""]) f := ⟨_, rfl, by cbv⟩
  exact ⟨handled, (literals_read_source ctx).1 _ f (by decide) handled⟩

/-- A string may have been given arguments. Inside another string it is still its text alone: the
argument that stands in its normal form is not read off the string around it. -/
theorem argument_not_read :
    let ctx : Context := { filename := "a.rb", lineOffset := 0, charset := ⟨.utf8, false⟩ }
    let applied : Raw.Node := ⟨"method_add_arg", [(stringOf [textOf "a"]).toRaw,
      .node "arg_paren" [.node Raw.listTag [.node "@int" [.str "1", .pos 1 6]]]]⟩
    let s : ByteString := ⟨[0x61], .utf8⟩
    let g : Form := ⟨"str", [.str s, .node "lit" [.int 1] (some 1) none], some 1, none⟩
    normalizeNode ctx applied = .ok g ∧
      Handles ctx (stringOf [.node "string_embexpr" [.node Raw.listTag [applied.toRaw]]])
        (plainString s) ∧
      (∃ h, .node h ∈ Run.merge g.runs) ∧ ∀ h, .node h ∉ Run.merge (plainString s).runs := by
  intro ctx applied s g
  refine ⟨by cbv, ⟨_, rfl, by cbv⟩, ⟨⟨"lit", [.int 1], some 1, none⟩, ?_⟩, ?_⟩
  · exact List.mem_cons_of_mem _ List.mem_cons_self
  · intro h member
    cases List.mem_singleton.1 member

end RubyNormalForm.Rules
