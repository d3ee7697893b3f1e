import RubyNormalForm.Proofs.Rules.Agreement.Literal
import RubyNormalForm.Proofs.Rules.Composition.Statement
import RubyNormalForm.Proofs.Rules.Regular

/-!
# What literals and operators compose

A literal takes the strings inside it apart and puts their pieces together anew, and a boolean
chain takes its left operand apart. Both build only with what they find: the nodes between the
texts, and the operands of the chain.
-/

namespace RubyNormalForm.Rules

open Raw

variable {known : Site → Node → Prop} {ctx : Context} {P : Form → Prop}

/-! ### Numbers, variables and constants -/

section Scalar

variable (law : Law known ctx P)
include law

theorem all_literal {item : Item} (scalar : item.isScalar = true) : (literal item).All P := by
  have free : IsFree "lit" := by decide
  simpa [literal, law.all_of free] using Item.all_of_isScalar scalar

theorem all_string (s : ByteString) : (plainString s).All P := by
  have free : IsFree "str" := by decide
  simpa [plainString, law.all_of free] using Item.all_str s

theorem numberRule_composes {kind : NumberKind} {read : String → Option Item}
    (scalar : ∀ text item, read text = some item → item.isScalar = true) :
    Composes known ctx P (numberRule kind read) := by
  intro inner b each n opens
  simp only [numberRule, ensures_bind]
  refine .of_forall fun t => ?_
  cases found : read t.text with
  | none => exact ensures_throw _
  | some item => exact (ensures_pure _).2 (all_literal law (scalar _ _ found))

theorem integerRule_composes : Composes known ctx P integerRule :=
  numberRule_composes law fun _ => isScalar_map isScalar_ofInteger

theorem floatRule_composes : Composes known ctx P floatRule :=
  numberRule_composes law fun _ => isScalar_map fun _ => rfl

theorem rationalRule_composes : Composes known ctx P rationalRule :=
  numberRule_composes law fun _ => isScalar_map fun _ => rfl

theorem imaginaryRule_composes : Composes known ctx P imaginaryRule :=
  numberRule_composes law fun _ => isScalar_map fun _ => rfl

theorem characterRule_composes : Composes known ctx P characterRule := by
  intro inner b each n opens
  simp only [characterRule, ensures_bind, ensures_pure]
  exact .of_forall fun t => all_string law _

theorem labelRule_composes : Composes known ctx P labelRule := by
  intro inner b each n opens
  simp only [labelRule, ensures_bind, ensures_pure]
  exact .of_forall fun t => all_literal law rfl

theorem all_backReference (text : String) : Ensures (backReference text) (Form.All P) := by
  have number : IsFree "nth_ref" := by decide
  have named : IsFree "back_ref" := by decide
  rw [backReference.eq_def]
  split
  · split
    · simp [law.all_of number]
    · simp [law.all_of named]
  · exact ensures_error _

theorem all_keyword (b : Bool) (line : Nat) (word : String) :
    Ensures (keyword (ctx.within b) line word) (Form.All P) := by
  have constant : IsFree "const" := by decide
  have path : IsFree "colon2" := by decide
  simp only [keyword, ensures_ite, ensures_ok, ensures_error, implies_true, and_true,
    Bool.or_eq_true, beq_iff_eq]
  refine ⟨fun isWord => law.all_bare ?_, fun _ => ⟨fun _ => all_string law _, fun _ =>
    ⟨fun _ => all_literal law rfl, fun _ _ => ?_⟩⟩⟩
  · obtain ((rfl | rfl) | rfl) | rfl := isWord <;> decide
  · simp [law.all_of path, law.all_of constant]

theorem all_readToken (b : Bool) (t : Token) :
    Ensures (readToken (ctx.within b) t) (Form.All P) := by
  have lvar : IsFree "lvar" := by decide
  simp only [readToken, ensures_bind, ensures_pure, ensures_ite, ensures_throw, implies_true,
    and_true, Bool.or_eq_true, beq_iff_eq]
  refine ⟨fun _ => law.withLine (by simp [law.all_of lvar]) _, fun _ => ⟨fun isKind => ?_,
    fun _ => ⟨fun _ => ?_, fun _ _ => ?_⟩⟩⟩
  · have free : IsFree t.kind := by
      obtain ((isKind | isKind) | isKind) | isKind := isKind <;> rw [isKind] <;> decide
    exact law.withLine (by simp [law.all_of free]) _
  · exact (all_backReference law t.text).mono fun f inside => law.withLine inside _
  · exact (all_keyword law b _ t.text).mono fun f inside => law.withLine inside _

theorem tokenRule_composes : Composes known ctx P tokenRule := by
  intro inner b each n opens
  simp only [tokenRule, ensures_bind]
  exact .of_forall (all_readToken law b)

theorem referenceRule_composes : Composes known ctx P referenceRule := by
  intro inner b each n opens
  simp only [referenceRule, ensures_bind]
  exact .of_forall fun m => .of_forall (all_readToken law b)

theorem constantPath_composes (top : Bool) : Composes known ctx P (constantPath top) := by
  intro inner b each n opens
  exact all_constantPath law each top opens

end Scalar

/-! ### Pieces of a literal -/

/-- The property holds everywhere in a node between texts. -/
def Piece.All (P : Form → Prop) : Piece → Prop
  | .text _ => True
  | .form f => f.All P

/-- The property holds everywhere in the code of a fragment. -/
def Fragment.All (P : Form → Prop) : Fragment → Prop
  | .text _ _ => True
  | .piece p => p.All P

theorem all_stringPieces (items : List Item) : ∀ p ∈ stringPieces items, p.All P := by
  intro p member
  obtain ⟨s, rfl⟩ := stringPieces_text member
  trivial

theorem all_piecesOfItem {item : Item} (h : item.All P) : ∀ p ∈ piecesOfItem item, p.All P := by
  rw [piecesOfItem.eq_def]
  split
  · simp [Piece.All]
  · split
    · exact all_stringPieces _
    · rw [List.forall_mem_singleton]
      exact h
  · simp

theorem Fragment.All.decode {fragment : Fragment} (h : fragment.All P) (cs : Charset)
    (forced : Option Quoting) (replaced : Option String) :
    (fragment.decode cs forced replaced).All P := by
  cases fragment with
  | text source opener => trivial
  | piece p => exact h

theorem all_decode {found : List Fragment} (inside : ∀ x ∈ found, x.All P) (cs : Charset)
    (forced : Option Quoting) : ∀ p ∈ decode cs forced found, p.All P := by
  intro p member
  rw [Rules.decode] at member
  obtain ⟨i, inRange, rfl⟩ := List.mem_iff_getElem.1 member
  rw [List.getElem_zipWith]
  exact (inside _ (List.getElem_mem _)).decode cs forced _

section Pieces

variable (law : Law known ctx P)
include law

theorem all_interpolation {f : Form} (h : f.All P) : (interpolation f).All P := by
  have free : IsFree "evstr" := by decide
  exact law.withLine (by simpa [law.all_of free] using h) f.line

theorem all_piecesOf {f : Form} (h : f.All P) : ∀ p ∈ piecesOf f, p.All P := by
  rw [piecesOf]
  split
  · exact all_stringPieces f.items
  · split
    · intro p member
      obtain ⟨item, isItem, inside⟩ := List.mem_flatMap.1 member
      exact all_piecesOfItem (h.items item isItem) p inside
    · simpa [Piece.All] using all_interpolation law h

theorem all_map_piece {f : Form} (h : f.All P) :
    ∀ x ∈ (piecesOf f).map Fragment.piece, x.All P := by
  intro x member
  obtain ⟨p, isPiece, rfl⟩ := List.mem_map.1 member
  exact all_piecesOf law h p isPiece

variable {inner : Normalizer} {b : Bool} (each : Upholds known ctx P inner b)
include each

theorem all_fragmentsOf {n : Node} (h : known (.expression b) n) :
    Ensures (fragmentsOf inner (ctx.within b) n) (fun found => ∀ x ∈ found, x.All P) := by
  rw [fragmentsOf]
  split
  · simp only [ensures_bind, ensures_pure]
    exact .of_forall fun text => by simp [Fragment.All]
  · split
    · rename_i isCode
      have isCode : n.tag = "string_embexpr" := eq_of_beq isCode
      have opens := law.closed.opens rfl h (by rw [isCode]; decide)
      rw [ensures_bind]
      refine (all_body law each (opens 0)).mono fun o inside => ?_
      cases o with
      | none =>
        have free : IsFree "evstr" := by decide
        have empty := law.withLine (law.all_bare free) ((ctx.within b).lineOf n)
        simpa [Fragment.All, Piece.All] using empty
      | some f => exact (ensures_pure _).2 (all_map_piece law (inside f rfl))
    · split
      · rename_i isVariable
        have isVariable : n.tag = "string_dvar" := eq_of_beq isVariable
        have opens := law.closed.opens rfl h (by rw [isVariable]; decide)
        simp only [ensures_bind, ensures_pure]
        refine (each.nodeAt (opens 0)).mono fun m value => value.mono fun f inside => ?_
        simpa [Fragment.All, Piece.All] using all_interpolation law inside
      · simp only [ensures_bind, ensures_pure]
        exact (each n h).mono fun f inside => all_map_piece law inside

theorem all_fragments {parts : List Raw} (reads : ∀ part ∈ parts, Reads known b part) :
    Ensures (fragments inner (ctx.within b) parts) (fun found => ∀ x ∈ found, x.All P) := by
  induction parts with
  | nil => simp [fragments]
  | cons child rest ih =>
    rw [List.forall_mem_cons] at reads
    rw [fragments.eq_def]
    dsimp only
    split
    · simp only [ensures_bind, ensures_pure, List.forall_mem_append]
      refine (all_fragmentsOf law each (reads_node.1 reads.1)).mono fun first isFirst => ?_
      exact (ih reads.2).mono fun others areOthers => ⟨isFirst, areOthers⟩
    · split
      · exact ih reads.2
      · exact ensures_error _

theorem all_pieces {parts : List Raw} (reads : ∀ part ∈ parts, Reads known b part) :
    Ensures (pieces inner (ctx.within b) parts) (fun found => ∀ p ∈ found, p.All P) := by
  rw [pieces, ensures_map]
  exact (all_fragments law each reads).mono fun found inside => all_decode inside _ _

end Pieces

/-! ### Putting pieces together -/

section Assembling

variable (law : Law known ctx P) (encoding : Encoding)
include law

theorem all_mergedText (s : ByteString) : ∀ f ∈ mergedText s, f.All P := by
  rw [mergedText]
  split
  · simp
  · simpa using all_string law s

theorem all_gather {found : List Piece} (inside : ∀ p ∈ found, p.All P) (pending : ByteString) :
    ∀ f ∈ gather encoding pending found, f.All P := by
  induction found generalizing pending with
  | nil => exact all_mergedText law pending
  | cons p rest ih =>
    rw [List.forall_mem_cons] at inside
    cases p with
    | text s => exact ih inside.2 _
    | form f =>
      rw [gather, List.forall_mem_append, List.forall_mem_cons]
      exact ⟨all_mergedText law pending, inside.1, ih inside.2 _⟩

theorem all_assemble {found : List Piece} (inside : ∀ p ∈ found, p.All P) (head : ByteString)
    {text : ByteString} {forms : List Form}
    (parts : assemble encoding head found = (text, some forms)) : ∀ f ∈ forms, f.All P := by
  induction found generalizing head with
  | nil => cases parts
  | cons p rest ih =>
    rw [List.forall_mem_cons] at inside
    cases p with
    | text s => exact ih inside.2 _ parts
    | form f =>
      cases parts
      rw [List.forall_mem_cons]
      exact ⟨inside.1, all_gather law encoding inside.2 _⟩

theorem all_literalForm {plain : ByteString → Form} (isPlain : ∀ s, (plain s).All P) {tag : String}
    (free : IsFree tag) {found : List Piece} (inside : ∀ p ∈ found, p.All P) :
    (literalForm encoding plain tag found).All P := by
  rw [literalForm]
  split
  · exact isPlain _
  · rename_i head forms parts
    rw [law.all_pushAll free]
    refine ⟨?_, all_assemble law encoding inside _ parts⟩
    simpa using Item.all_str head

variable {found : List Piece} (inside : ∀ p ∈ found, p.All P)
include inside

theorem all_stringForm : (stringForm encoding found).All P :=
  all_literalForm law encoding (all_string law) (by decide) inside

theorem all_symbolForm : (symbolForm encoding found).All P :=
  all_literalForm law encoding (fun _ => all_literal law rfl) (by decide) inside

theorem all_commandForm : (commandForm encoding found).All P := by
  refine all_literalForm law encoding (fun s => ?_) (by decide) inside
  have free : IsFree "xstr" := by decide
  simpa [law.all_of free] using Item.all_str s

theorem all_regexpForm (flags : Regexp.Flags) : (regexpForm encoding flags found).All P := by
  have free : IsFree (if flags.once then "dregx_once" else "dregx") := by
    split <;> decide
  rw [regexpForm]
  split
  · exact all_literal law rfl
  · rename_i head forms parts
    have inHead : ∀ x ∈ [Item.str head], x.All P := by
      simpa using Item.all_str head
    have whole := (law.all_pushAll free).2 ⟨inHead, all_assemble law encoding inside _ parts⟩
    dsimp only
    split
    · exact whole
    · refine (law.all_of free).2 ?_
      rw [List.forall_mem_append]
      exact ⟨whole.items, by simp⟩

end Assembling

section Literals

variable (law : Law known ctx P)
include law

theorem quotedRule_composes {form : Encoding → List Piece → Form}
    (all : ∀ encoding {found}, (∀ p ∈ found, p.All P) → (form encoding found).All P) :
    Composes known ctx P (quotedRule form) := by
  intro inner b each n opens
  simp only [quotedRule, ensures_bind, ensures_pure]
  refine (law.closed.contentParts (opens 0)).mono fun parts reads => ?_
  exact (all_pieces law each reads).mono fun found inside => all _ inside

theorem contentRule_composes : Composes known ctx P contentRule := by
  intro inner b each n opens
  simp only [contentRule, ensures_bind, ensures_pure]
  exact (all_pieces law each opens.children).mono fun found => all_stringForm law _

theorem all_textTokenRule {inner : Normalizer} {b : Bool} (each : Upholds known ctx P inner b)
    {n : Node} (h : known (.expression b) n) :
    Ensures (textTokenRule inner (ctx.within b) n) (Form.All P) := by
  have reads : ∀ part ∈ [n.toRaw], Reads known b part := by
    simpa using reads_toRaw.2 h
  simp only [textTokenRule, ensures_bind, ensures_pure]
  exact (all_pieces law each reads).mono fun found => all_stringForm law _

theorem concatenationRule_composes : Composes known ctx P concatenationRule := by
  intro inner b each n opens
  simp only [concatenationRule, ensures_bind, ensures_pure]
  refine (each.nodeAt (opens 0)).mono fun first value => value.mono fun left isLeft => ?_
  refine (each.nodeAt (opens 1)).mono fun second value => value.mono fun right isRight => ?_
  refine law.withLine (all_stringForm law _ ?_) left.line
  rw [List.forall_mem_append]
  exact ⟨all_piecesOf law isLeft, all_piecesOf law isRight⟩

theorem symbolRule_composes : Composes known ctx P symbolRule := by
  intro inner b each n opens
  simp only [symbolRule, ensures_bind, ensures_pure]
  exact .of_forall fun name => all_literal law rfl

theorem regexpRule_composes : Composes known ctx P regexpRule := by
  intro inner b each n opens
  simp only [regexpRule, ensures_bind, ensures_pure]
  refine (law.closed.contentParts (opens 0)).mono fun parts reads => ?_
  refine (all_fragments law each reads).mono fun found inside => ?_
  exact all_regexpForm law _ (all_decode inside _ _) _

theorem wordsRule_composes {form : Encoding → List Piece → Form}
    (all : ∀ encoding {found}, (∀ p ∈ found, p.All P) → (form encoding found).All P) :
    Composes known ctx P (wordsRule form) := by
  intro inner b each n opens
  simp only [wordsRule, ensures_map, law.all_array]
  have reads := opens.children
  generalize n.children = children at reads
  induction children with
  | nil => simp [wordForms]
  | cons child rest ih =>
    rw [List.forall_mem_cons] at reads
    simp only [wordForms, ensures_bind, ensures_pure, List.forall_mem_cons]
    refine (all_pieces law each (law.closed.wordParts reads.1)).mono fun found inside => ?_
    exact (ih reads.2).mono fun forms others => ⟨all _ inside, others⟩

/-! ### Arrays, hashes and ranges -/

theorem arrayRule_composes : Composes known ctx P arrayRule := by
  intro inner b each n opens
  have reads := opens 0
  rw [arrayRule]
  split
  · rename_i tag children eq
    rw [eq] at reads
    split
    · simpa only [ensures_map, law.all_array] using each.arguments law.closed reads
    · exact each _ (reads_node.1 reads)
  · simpa only [ensures_map, law.all_array] using each.arguments law.closed reads

theorem all_hashEntry {inner : Normalizer} {b : Bool} (each : Upholds known ctx P inner b)
    {n : Node} (h : known (.expression b) n) :
    Ensures (hashEntry inner (ctx.within b) n) (fun items => ∀ x ∈ items, x.All P) := by
  rw [hashEntry]
  split
  · rename_i isPair
    have isPair : n.tag = "assoc_new" := eq_of_beq isPair
    have opens := law.closed.opens rfl h (by rw [isPair]; decide)
    simp only [ensures_bind, ensures_pure]
    refine (each.nodeAt (opens 0)).mono fun m isKey => isKey.mono fun key inKey => ?_
    refine (each.value? (opens 1)).mono fun value inValue => ?_
    simpa using ⟨inKey, inValue⟩
  · simp only [ensures_bind, ensures_pure]
    exact (each n h).mono fun f inside => by simpa using inside

theorem hashRule_composes : Composes known ctx P hashRule := by
  have free : IsFree "hash" := by decide
  intro inner b each n opens
  simp only [hashRule, ensures_bind, ensures_pure, law.all_of free]
  have reads : Ensures (n.nodesFrom 0) (fun nodes => ∀ m ∈ nodes, known (.expression b) m) :=
    ensures_presentNodes opens.children
  refine reads.mono fun nodes areKnown => ?_
  induction nodes with
  | nil => simp [hashItems]
  | cons m rest ih =>
    rw [List.forall_mem_cons] at areKnown
    simp only [hashItems, ensures_bind, ensures_pure, List.forall_mem_append]
    refine (all_hashEntry law each areKnown.1).mono fun first isFirst => ?_
    exact (ih areKnown.2).mono fun others areOthers => ⟨isFirst, areOthers⟩

theorem all_range (exclusive : Bool) {first last : Option Form} (isFirst : ∀ f ∈ first, f.All P)
    (isLast : ∀ f ∈ last, f.All P) : (range exclusive first last).All P := by
  have free : IsFree (if exclusive then "dot3" else "dot2") := by
    split <;> decide
  rw [range]
  split
  · exact law.withLine (all_literal law rfl) _
  · simpa [law.all_of free] using ⟨isFirst, isLast⟩

theorem rangeRule_composes (exclusive : Bool) : Composes known ctx P (rangeRule exclusive) := by
  intro inner b each n opens
  simp only [rangeRule, ensures_bind, ensures_pure]
  refine (each.value? (opens 0)).mono fun first isFirst => ?_
  exact (each.value? (opens 1)).mono fun last isLast => all_range law exclusive isFirst isLast

end Literals

/-! ### Operators -/

section Operators

variable (law : Law known ctx P)
include law

theorem all_booleanOf {tag : String} (isBoolean : tag = "and" ∨ tag = "or") {left right : Form}
    (isLeft : left.All P) (isRight : right.All P) :
    (Form.of tag [left.toItem, right.toItem]).All P := by
  have unplaced : tag ∉ placedTags := by
    obtain rfl | rfl := isBoolean <;> decide
  refine law.all_fresh rfl unplaced (Form.conforms_boolean isBoolean left right) ?_
  simpa [Form.of] using ⟨isLeft, isRight⟩

/-- A boolean operator keeps the property if its second operand is made over. -/
theorem all_remade {tag : String} (isBoolean : tag = "and" ∨ tag = "or") {first second last : Item}
    {line : Option Nat} {comments : Option String}
    (h : (Form.mk tag [first, second] line comments).All P) (inLast : last.All P)
    (isNode : second.kind.IsNode → last.kind.IsNode) :
    ((Form.of tag [first, last]).withLine line).All P := by
  have unplaced : tag ∉ placedTags := by
    obtain rfl | rfl := isBoolean <;> decide
  refine law.withLine (Form.all_iff.2 ⟨?_, ?_⟩) line
  · refine law.rebuilt h.root unplaced rfl rfl (.inr rfl) fun conforms => ?_
    obtain ⟨left, right, kinds, isLeft, isRight⟩ := conforms.operands isBoolean
    cases kinds
    exact .boolean isBoolean isLeft (isNode isRight)
  · have inFirst := h.items first (by simp)
    simpa [Form.of] using ⟨inFirst, inLast⟩

/-- A chain goes down the second operands of its left side. -/
theorem all_chain {tag : String} (isBoolean : tag = "and" ∨ tag = "or") {right : Form}
    (isRight : right.All P) (x : Item) (h : x.All P) (isNode : x.kind.IsNode) :
    (chain tag right x).All P := by
  cases x with
  | node leftTag items line comments =>
    have left : (Form.mk leftTag items line comments).All P := h
    have whole : (Form.of tag [.node leftTag items line comments, right.toItem]).All P :=
      all_booleanOf law isBoolean left isRight
    by_cases same : leftTag = tag
    · subst same
      match items, h, whole with
      | [first, second], h, whole =>
        have inSecond : second.All P := (Item.all_node.1 h).2 second (by simp)
        cases second with
        | node tag' items' line' comments' =>
          simp only [chain, beq_self_eq_true, if_true]
          have further := all_chain isBoolean isRight _ inSecond (Item.Kind.isNode_node tag')
          exact all_remade law isBoolean h further fun _ => Item.Kind.isNode_node _
        | _ =>
          simp only [chain, beq_self_eq_true, if_true]
          exact all_booleanOf law isBoolean (all_remade law isBoolean h inSecond id) isRight
      | [], _, whole => simpa only [chain, ite_self] using whole
      | [_], _, whole => simpa only [chain, ite_self] using whole
      | _ :: _ :: _ :: _, _, whole => simpa only [chain, ite_self] using whole
    · rw [chain_of_differs (by simpa using same)]
      exact whole
  | _ =>
    obtain ⟨tag, isNode⟩ := isNode
    cases isNode

theorem all_boolean {tag : String} (isBoolean : tag = "and" ∨ tag = "or") (grouped : Bool)
    {left right : Form} (isLeft : left.All P) (isRight : right.All P) :
    (boolean tag grouped left right).All P := by
  rw [boolean]
  split
  · exact all_booleanOf law isBoolean isLeft isRight
  · exact all_chain law isBoolean isRight left.toItem isLeft (Item.Kind.isNode_node _)

theorem all_binary (operator : String) (grouped : Bool) {left right : Form} (isLeft : left.All P)
    (isRight : right.All P) : (binary operator grouped left right).All P := by
  have receiver : ∀ f ∈ some left, f.All P := by
    simpa using isLeft
  have argument : ∀ f ∈ [right], f.All P := by
    simpa using isRight
  have call (method : String) : (Form.of "call" [left.toItem, .sym method, right.toItem]).All P :=
    law.all_call (.inl rfl) receiver method argument
  have negation : IsFree "not" := by decide
  have regexpFirst : IsFree "match2" := by decide
  have regexpLast : IsFree "match3" := by decide
  rw [binary]
  split
  · exact all_boolean law (.inl rfl) grouped isLeft isRight
  · split
    · exact all_boolean law (.inr rfl) grouped isLeft isRight
    · split
      · simpa [law.all_of regexpFirst] using ⟨isLeft, isRight⟩
      · split
        · simpa [law.all_of regexpLast] using ⟨isRight, isLeft⟩
        · split
          · rw [law.all_of negation, List.forall_mem_singleton]
            exact law.withLine (call "=~") left.line
          · exact call operator

theorem binaryRule_composes : Composes known ctx P binaryRule := by
  intro inner b each n opens
  simp only [binaryRule, ensures_bind, ensures_pure]
  refine (each.nodeAt (opens 0)).mono fun first value => value.mono fun left isLeft => ?_
  refine .of_forall fun operator => ?_
  refine (each.nodeAt (opens 2)).mono fun second value => value.mono fun right isRight => ?_
  exact all_binary law operator _ isLeft isRight

/-- A number keeps the property with the opposite sign. -/
theorem all_negatedLiteral? {f g : Form} (h : f.All P) (found : negatedLiteral? f = some g) :
    g.All P := by
  rw [negatedLiteral?] at found
  split at found
  · rename_i item rest isLiteral items
    obtain ⟨opposite, negated, rfl⟩ := Option.map_eq_some_iff.1 found
    have isLiteral : f.tag = "lit" := eq_of_beq isLiteral
    refine Form.all_iff.2 ⟨?_, ?_⟩
    · refine law.rebuilt h.root (by rw [isLiteral]; decide) rfl (by simp [items]) (.inl rfl)
        fun _ => .free ?_
      show f.tag ∉ schemaTags
      rw [isLiteral]
      decide
    · have inItems := h.items
      rw [items, List.forall_mem_cons] at inItems
      rw [List.forall_mem_cons]
      exact ⟨Item.all_of_isScalar (isScalar_negated? negated), inItems.2⟩
  · cases found

theorem all_unary (operator : String) {operand : Option Form} (inside : ∀ f ∈ operand, f.All P) :
    (unary operator operand).All P := by
  have call (method : String) : (Form.of "call" [Form.itemOf operand, .sym method]).All P :=
    law.all_call (.inl rfl) inside method (List.forall_mem_nil _)
  rw [unary]
  dsimp only
  split
  · exact call "!"
  · split
    · cases found : operand.bind negatedLiteral? with
      | none => exact call operator
      | some g =>
        obtain ⟨f, isOperand, negated⟩ := Option.bind_eq_some_iff.1 found
        exact all_negatedLiteral? law (inside f isOperand) negated
    · exact call operator

theorem unaryRule_composes : Composes known ctx P unaryRule := by
  intro inner b each n opens
  simp only [unaryRule, ensures_bind, ensures_pure]
  refine .of_forall fun operator => ?_
  exact (each.value? (opens 1)).mono fun operand => all_unary law operator

theorem definedRule_composes : Composes known ctx P definedRule := by
  have free : IsFree "defined" := by decide
  intro inner b each n opens
  simp only [definedRule, ensures_bind, ensures_pure, law.all_of free]
  exact (each.value? (opens 0)).mono fun expr inside => by simpa using inside

end Operators

end RubyNormalForm.Rules
