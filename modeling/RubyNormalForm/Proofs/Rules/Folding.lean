import RubyNormalForm.Proofs.Rules.Locality
import RubyNormalForm.Proofs.Rules.Regularity

/-!
# Embedded literals

A string literal inside another literal is normalised by itself and then taken apart again.
The result is what one gets by writing its parts in its place. The reason is that joining
texts is associative, and that an empty text is neutral as long as it carries the encoding
of the source, which regularity provides.
-/

namespace RubyNormalForm

namespace ByteString

theorem append_assoc (s t u : ByteString) :
    (s.append t).append u = s.append (t.append u) := by
  obtain ⟨bytes, encoding⟩ := s
  cases bytes <;> simp [append]

theorem empty_append (encoding : Encoding) (s : ByteString) :
    (empty encoding).append s = s := by
  simp [append, empty]

/-- An empty text changes nothing at the end of a string that has bytes or is in the same
encoding. -/
theorem append_of_isEmpty {encoding : Encoding} {s t : ByteString} (hs : s.EmptyIn encoding)
    (ht : t.EmptyIn encoding) (isEmpty : t.isEmpty = true) : s.append t = s := by
  obtain ⟨bytes, own⟩ := s
  have noBytes : t.bytes = [] := List.isEmpty_iff.1 isEmpty
  cases bytes with
  | nil =>
    have same : own = encoding := hs rfl
    simp [append, noBytes, ht noBytes, same]
  | cons b rest => simp [append, noBytes]

theorem append_empty {encoding : Encoding} {s : ByteString} (hs : s.EmptyIn encoding) :
    s.append (empty encoding) = s :=
  append_of_isEmpty hs (emptyIn_empty encoding) rfl

end ByteString

namespace Rules

open ByteString (EmptyIn emptyIn_empty)

variable {encoding : Encoding}

/-! ### Taking a literal apart -/

/-- The pieces that nodes inside an interpolated string stand for. -/
def nodePieces (forms : List Form) : List Piece :=
  forms.flatMap fun f => piecesOfItem f.toItem

/-- The pieces of a string with the given head and nodes. -/
def stringParts : ByteString × Option (List Form) → List Piece
  | (head, none) => [.text head]
  | (head, some forms) => .text head :: nodePieces forms

theorem piecesOf_stringForm (encoding : Encoding) (ps : List Piece) :
    piecesOf (stringForm encoding ps) = stringParts (assemble encoding (.empty encoding) ps) := by
  unfold stringForm literalForm
  split
  · rename_i head assembled
    rw [assembled]
    rfl
  · rename_i head forms assembled
    rw [assembled]
    simp [stringParts, nodePieces, piecesOf, Form.is, Form.of, Form.pushAll, piecesOfItem,
      List.flatMap_map]

theorem nodePieces_cons {f : Form} (notStr : f.tag ≠ "str") (forms : List Form) :
    nodePieces (f :: forms) = .form f :: nodePieces forms := by
  simp [nodePieces, Form.toItem, piecesOfItem, notStr]

theorem nodePieces_append (forms forms' : List Form) :
    nodePieces (forms ++ forms') = nodePieces forms ++ nodePieces forms' :=
  List.flatMap_append

/-- A pending text before nodes joins the text before it. -/
theorem gather_mergedText {s p : ByteString} (hs : s.EmptyIn encoding) (hp : p.EmptyIn encoding)
    (rest : List Piece) :
    gather encoding s (nodePieces (mergedText p) ++ rest) = gather encoding (s.append p) rest := by
  rw [mergedText]
  split
  · rename_i isEmpty
    rw [ByteString.append_of_isEmpty hs hp isEmpty]
    rfl
  · rfl

/-- Nodes that were gathered can be gathered again with what is around them. -/
theorem gather_nodePieces {ps : List Piece} (regular : ∀ p ∈ ps, p.Regular encoding)
    {s p : ByteString} (hs : s.EmptyIn encoding) (hp : p.EmptyIn encoding) (rest : List Piece) :
    gather encoding s (nodePieces (gather encoding p ps) ++ rest) =
      gather encoding (s.append p) (ps ++ rest) := by
  induction ps generalizing s p with
  | nil => exact gather_mergedText hs hp rest
  | cons piece ps ih =>
    have others : ∀ q ∈ ps, q.Regular encoding := fun q member => regular q (by simp [member])
    cases piece with
    | text t =>
      have ht : t.EmptyIn encoding := regular (.text t) (by simp)
      calc gather encoding s (nodePieces (gather encoding (p.append t) ps) ++ rest)
          = gather encoding (s.append (p.append t)) (ps ++ rest) :=
            ih others hs (EmptyIn.append p ht)
        _ = gather encoding ((s.append p).append t) (ps ++ rest) := by
            rw [ByteString.append_assoc]
    | form f =>
      have notStr : f.tag ≠ "str" := regular (.form f) (by simp)
      have after : gather encoding (.empty encoding)
          (nodePieces (gather encoding (.empty encoding) ps) ++ rest) =
          gather encoding (.empty encoding) (ps ++ rest) := by
        rw [ih others (emptyIn_empty encoding) (emptyIn_empty encoding),
          ByteString.empty_append]
      have split : nodePieces (gather encoding p (.form f :: ps)) ++ rest =
          nodePieces (mergedText p) ++
            (.form f :: (nodePieces (gather encoding (.empty encoding) ps) ++ rest)) := by
        rw [gather, nodePieces_append, nodePieces_cons notStr, List.append_assoc, List.cons_append]
      rw [split, gather_mergedText hs hp]
      simp only [gather, List.cons_append, after]

/-- Two sequences of pieces that read the same wherever they stand in a literal. -/
structure Interchangeable (encoding : Encoding) (ps qs : List Piece) : Prop where
  assemble : ∀ head : ByteString, head.EmptyIn encoding →
    assemble encoding head ps = assemble encoding head qs
  gather : ∀ pending : ByteString, pending.EmptyIn encoding →
    gather encoding pending ps = gather encoding pending qs

namespace Interchangeable

theorem refl (ps : List Piece) : Interchangeable encoding ps ps :=
  ⟨fun _ _ => rfl, fun _ _ => rfl⟩

theorem trans {ps qs rs : List Piece} (first : Interchangeable encoding ps qs)
    (second : Interchangeable encoding qs rs) : Interchangeable encoding ps rs := by
  constructor
  · intro head hh
    exact (first.assemble head hh).trans (second.assemble head hh)
  · intro pending hp
    exact (first.gather pending hp).trans (second.gather pending hp)

/-- Regular pieces may be put before both sides. -/
theorem after {ps qs : List Piece} (same : Interchangeable encoding ps qs) {before : List Piece}
    (regular : ∀ p ∈ before, p.Regular encoding) :
    Interchangeable encoding (before ++ ps) (before ++ qs) := by
  induction before with
  | nil => exact same
  | cons piece before ih =>
    have inside := ih (fun q member => regular q (by simp [member]))
    cases piece with
    | text t =>
      have ht : t.EmptyIn encoding := regular (.text t) (by simp)
      constructor
      · intro head _
        exact inside.assemble _ (EmptyIn.append head ht)
      · intro pending _
        exact inside.gather _ (EmptyIn.append pending ht)
    | form f =>
      have rest := inside.gather _ (emptyIn_empty encoding)
      constructor
      · intro head _
        simp only [List.cons_append, Rules.assemble, rest]
      · intro pending _
        simp only [List.cons_append, Rules.gather, rest]

/-- The form of a literal depends on its pieces up to interchange only. -/
theorem literalForm_eq {ps qs : List Piece} (same : Interchangeable encoding ps qs)
    (plain : ByteString → Form) (tag : String) :
    literalForm encoding plain tag ps = literalForm encoding plain tag qs := by
  simp only [literalForm, same.assemble _ (emptyIn_empty encoding)]

end Interchangeable

/-- What was put together from a head and pieces reads like the pieces after that head. -/
theorem stringParts_assemble {ps : List Piece} (regular : ∀ p ∈ ps, p.Regular encoding)
    {p : ByteString} (hp : p.EmptyIn encoding) (rest : List Piece) :
    Interchangeable encoding (stringParts (assemble encoding p ps) ++ rest)
      (.text p :: (ps ++ rest)) := by
  induction ps generalizing p with
  | nil => exact Interchangeable.refl _
  | cons piece ps ih =>
    have others : ∀ q ∈ ps, q.Regular encoding := fun q member => regular q (by simp [member])
    cases piece with
    | text t =>
      have ht : t.EmptyIn encoding := regular (.text t) (by simp)
      have inside := ih others (EmptyIn.append p ht)
      refine inside.trans ⟨?_, ?_⟩
      · intro head _
        simp only [assemble, List.cons_append, ByteString.append_assoc]
      · intro pending _
        simp only [gather, List.cons_append, ByteString.append_assoc]
    | form f =>
      have notStr : f.tag ≠ "str" := regular (.form f) (by simp)
      have after : gather encoding (.empty encoding)
          (nodePieces (gather encoding (.empty encoding) ps) ++ rest) =
          gather encoding (.empty encoding) (ps ++ rest) := by
        rw [gather_nodePieces others (emptyIn_empty encoding) (emptyIn_empty encoding),
          ByteString.empty_append]
      constructor
      · intro head _
        simp only [assemble, stringParts, nodePieces_cons notStr, List.cons_append, after]
      · intro pending _
        simp only [assemble, gather, stringParts, nodePieces_cons notStr, List.cons_append, after]

/-- The pieces of a string may be replaced by those it was made of. -/
theorem piecesOf_stringForm_interchangeable {ps : List Piece}
    (regular : ∀ p ∈ ps, p.Regular encoding) (rest : List Piece) :
    Interchangeable encoding (piecesOf (stringForm encoding ps) ++ rest) (ps ++ rest) := by
  rw [piecesOf_stringForm]
  refine (stringParts_assemble regular (emptyIn_empty encoding) rest).trans ⟨?_, ?_⟩
  · intro head hh
    simp only [assemble, ByteString.append_empty hh]
  · intro pending hp
    simp only [gather, ByteString.append_empty hp]

/-! ### Literals without their lines -/

theorem gather_unlined (encoding : Encoding) (pending : ByteString) (ps : List Piece) :
    gather encoding pending (ps.map Piece.unlined) =
      (gather encoding pending ps).map Form.unlined := by
  have merged : ∀ s : ByteString, (mergedText s).map Form.unlined = mergedText s := by
    intro s
    rw [mergedText]
    split <;> rfl
  induction ps generalizing pending with
  | nil => exact (merged pending).symm
  | cons piece ps ih =>
    cases piece with
    | text t => exact ih (pending.append t)
    | form f =>
      simp only [List.map_cons, Piece.unlined, gather, List.map_append, merged, ih]

theorem assemble_unlined (encoding : Encoding) (head : ByteString) (ps : List Piece) :
    assemble encoding head (ps.map Piece.unlined) =
      ((assemble encoding head ps).1,
        (assemble encoding head ps).2.map (List.map Form.unlined)) := by
  induction ps generalizing head with
  | nil => rfl
  | cons piece ps ih =>
    cases piece with
    | text t => exact ih (head.append t)
    | form f =>
      simp only [List.map_cons, Piece.unlined, assemble, gather_unlined, Option.map_some]

/-- The lines inside the pieces of a literal do not matter for the rest of it. -/
theorem literalForm_unlined {ps qs : List Piece}
    (same : ps.map Piece.unlined = qs.map Piece.unlined) (encoding : Encoding)
    (plain : ByteString → Form) (tag : String) :
    (literalForm encoding plain tag ps).unlined = (literalForm encoding plain tag qs).unlined := by
  have erased : ∀ ps : List Piece, (literalForm encoding plain tag (ps.map Piece.unlined)).unlined =
      (literalForm encoding plain tag ps).unlined := by
    intro ps
    simp only [literalForm, assemble_unlined]
    obtain ⟨head, forms⟩ := assemble encoding (.empty encoding) ps
    cases forms with
    | none => rfl
    | some forms =>
      simp only [Option.map_some, Form.unlined_pushAll, List.map_map]
      refine congrArg _ (List.map_congr_left ?_)
      intro f _
      exact f.unlined_unlined
  rw [← erased ps, same, erased qs]

/-! ### The parts of a literal -/

/-- No text among the parts belongs to a squiggly heredoc. -/
def NoSquiggly (parts : List Raw) : Prop :=
  ∀ n : Raw.Node, n.toRaw ∈ parts → n.tag = "@tstring_content" →
    (openerOf (n.slot 2)).any Heredoc.isSquiggly = false

theorem NoSquiggly.append {xs ys : List Raw} (plainXs : NoSquiggly xs) (plainYs : NoSquiggly ys) :
    NoSquiggly (xs ++ ys) := by
  intro n member isText
  obtain member | member := List.mem_append.1 member
  · exact plainXs n member isText
  · exact plainYs n member isText

theorem toRaw_inj {n m : Raw.Node} (same : n.toRaw = m.toRaw) : n = m := by
  obtain ⟨tag, children⟩ := n
  obtain ⟨tag', children'⟩ := m
  cases same
  rfl

theorem fragmentsOf_not_squiggly (inner : Normalizer) (ctx : Context) {n : Raw.Node}
    (plain : n.tag = "@tstring_content" → (openerOf (n.slot 2)).any Heredoc.isSquiggly = false) :
    Ensures (fragmentsOf inner ctx n) (fun found => found.any Fragment.isSquiggly = false) := by
  have pieces : ∀ ps : List Piece, (ps.map Fragment.piece).any Fragment.isSquiggly = false := by
    intro ps
    simp [Fragment.isSquiggly, Fragment.opener?]
  rw [fragmentsOf]
  split
  · rename_i isText
    have notSquiggly := plain (eq_of_beq isText)
    simp [Fragment.isSquiggly, Fragment.opener?, notSquiggly]
  · split
    · rw [ensures_bind]
      apply Ensures.of_forall
      intro inside
      split
      · rw [ensures_pure]
        exact pieces [_]
      · rw [ensures_pure]
        exact pieces _
    · split
      · simp [Fragment.isSquiggly, Fragment.opener?]
      · rw [ensures_bind]
        apply Ensures.of_forall
        intro f
        rw [ensures_pure]
        exact pieces _

theorem fragments_not_squiggly (inner : Normalizer) (ctx : Context) {parts : List Raw}
    (plain : NoSquiggly parts) :
    Ensures (fragments inner ctx parts) (fun found => found.any Fragment.isSquiggly = false) := by
  induction parts with
  | nil => simp [fragments]
  | cons part rest ih =>
    have others := ih (fun n member => plain n (by simp [member]))
    unfold fragments
    split
    · rename_i tag children
      simp only [ensures_bind, ensures_pure]
      refine (fragmentsOf_not_squiggly inner ctx ?_).mono ?_
      · exact plain ⟨tag, children⟩ (by simp [Raw.Node.toRaw])
      · intro first isFirst
        refine others.mono ?_
        intro found isFound
        rw [List.any_append, isFirst, isFound]
        rfl
    · split
      · exact others
      · exact ensures_error _

theorem fragments_append (inner : Normalizer) (ctx : Context) (xs ys : List Raw) :
    fragments inner ctx (xs ++ ys) = (do
      let first ← fragments inner ctx xs
      let second ← fragments inner ctx ys
      return first ++ second) := by
  induction xs with
  | nil =>
    simp only [List.nil_append, fragments]
    cases fragments inner ctx ys <;> rfl
  | cons part rest ih =>
    cases part with
    | node tag children =>
      simp only [List.cons_append, fragments, ih, bind_assoc, pure_bind, List.append_assoc]
    | _ =>
      simp only [List.cons_append, fragments]
      split
      · exact ih
      · rfl

/-- Where nothing is dedented, every fragment is read by itself. -/
theorem decode_eq_map (cs : Charset) (forced : Option Quoting) {found : List Fragment}
    (plain : found.any Fragment.isSquiggly = false) :
    decode cs forced found =
      found.map fun fragment => fragment.decode cs forced fragment.source? := by
  simp only [decode, plain, Bool.false_eq_true, if_false]
  induction found with
  | nil => rfl
  | cons fragment rest ih =>
    simp only [List.any_cons, Bool.or_eq_false_iff] at plain
    simp only [List.map_cons, List.zipWith_cons_cons, ih plain.2]

theorem pieces_append (inner : Normalizer) (ctx : Context) {xs ys : List Raw}
    (plainXs : NoSquiggly xs) (plainYs : NoSquiggly ys) :
    pieces inner ctx (xs ++ ys) = (do
      let first ← pieces inner ctx xs
      let second ← pieces inner ctx ys
      return first ++ second) := by
  have left := fragments_not_squiggly inner ctx plainXs
  have right := fragments_not_squiggly inner ctx plainYs
  simp only [pieces, fragments_append]
  cases foundXs : fragments inner ctx xs with
  | error e => rfl
  | ok first =>
    cases foundYs : fragments inner ctx ys with
    | error e => rfl
    | ok second =>
      have plainFirst := left first foundXs
      have plainSecond := right second foundYs
      have plainBoth : (first ++ second).any Fragment.isSquiggly = false := by
        rw [List.any_append, plainFirst, plainSecond]
        rfl
      refine congrArg Except.ok ?_
      rw [decode_eq_map _ _ plainFirst, decode_eq_map _ _ plainSecond,
        decode_eq_map _ _ plainBoth, List.map_append]

/-! ### Interpolations of one literal -/

/-- The node is a literal of the given tag whose body has the given parts. -/
structure HasParts (n : Raw.Node) (tag : String) (parts : List Raw) : Prop where
  isLiteral : n.tag = tag
  parts : contentParts (n.slot 0) = .ok parts

/-- The node is an interpolation of one statement. -/
structure Interpolates (code statement : Raw.Node) : Prop where
  isCode : code.tag = "string_embexpr"
  single : code.slot 0 = .node Raw.listTag [statement.toRaw] ∨
    code.slot 0 = .node "stmts" [statement.toRaw]

theorem body_single (inner : Normalizer) (ctx : Context) {n : Raw.Node}
    (notVoid : n.tag ≠ "void_stmt") {tag : String}
    (isList : tag = Raw.listTag ∨ tag = "stmts") :
    body inner ctx (.node tag [n.toRaw]) = (inner ctx n).map some := by
  have list : statements inner ctx (.node tag [n.toRaw]) = listed inner ctx [n.toRaw] := by
    obtain rfl | rfl := isList <;> rfl
  rw [body, list]
  simp only [listed, Raw.Node.toRaw, beq_iff_eq, notVoid, if_false]
  cases inner ctx n <;> rfl

/-- The pieces of an interpolated literal are those of its normal form. -/
theorem pieces_interpolates (ctx : Context) {code literal : Raw.Node} {parts : List Raw}
    (embeds : Interpolates code literal) (isLiteral : HasParts literal "string_literal" parts) :
    pieces normalizeNode ctx [code.toRaw] = (normalizeNode ctx literal).map piecesOf := by
  have notVoid : literal.tag ≠ "void_stmt" := by
    rw [isLiteral.isLiteral]
    decide
  have inside : body normalizeNode ctx (code.slot 0) = (normalizeNode ctx literal).map some := by
    obtain single | single := embeds.single <;> rw [single]
    · exact body_single normalizeNode ctx notVoid (.inl rfl)
    · exact body_single normalizeNode ctx notVoid (.inr rfl)
  have found : fragmentsOf normalizeNode ctx code =
      (normalizeNode ctx literal).map fun f => (piecesOf f).map Fragment.piece := by
    simp [fragmentsOf, Raw.Node.is, embeds.isCode, inside]
    cases normalizeNode ctx literal <;> rfl
  have read : ∀ ps : List Piece, decode ctx.charset none (ps.map Fragment.piece ++ []) = ps := by
    intro ps
    rw [List.append_nil, decode_eq_map _ _ (by simp [Fragment.isSquiggly, Fragment.opener?]),
      List.map_map]
    exact List.map_id ps
  have single : fragments normalizeNode ctx [code.toRaw] =
      (fragmentsOf normalizeNode ctx code).map (· ++ []) := by
    simp only [fragments, Raw.Node.toRaw]
    cases fragmentsOf normalizeNode ctx code <;> rfl
  rw [pieces, single, found]
  cases normalizeNode ctx literal with
  | error e => rfl
  | ok f => exact congrArg Except.ok (read (piecesOf f))

/-! ### Literals are what their parts are -/

/-- The tags of the literals that are put together from pieces of text and code. -/
def quotedTags : List String :=
  ["string_literal", "dyna_symbol", "xstring_literal"]

theorem rule?_of_quoted {outer : String} (isOuter : outer ∈ quotedTags) :
    ∃ plain tag,
      rule? outer = some (quotedRule fun encoding => literalForm encoding plain tag) := by
  simp only [quotedTags, List.mem_cons, List.not_mem_nil, or_false] at isOuter
  obtain rfl | rfl | rfl := isOuter
  · exact ⟨_, _, rfl⟩
  · exact ⟨_, _, rfl⟩
  · exact ⟨_, _, rfl⟩

/-- The normal form of a literal is put together from the pieces of its parts. -/
theorem normalizeNode_quoted {outer : String} {form : Encoding → List Piece → Form}
    (found : rule? outer = some (quotedRule form)) {n : Raw.Node} {parts : List Raw}
    (has : HasParts n outer parts) (ctx : Context) :
    normalizeNode ctx n =
      (pieces normalizeNode ctx parts).map fun ps => settle ctx n (form ctx.encoding ps) := by
  have isLocal : Rule.LocalAt (quotedRule form) ctx n := by
    intro inner inner' agree
    exact quotedRule_congr agree ctx form (Nat.le_refl _)
  rw [normalizeNode_of_localAt (by rw [has.isLiteral]; exact found) isLocal]
  simp only [quotedRule, has.parts, ok_bind]
  cases pieces normalizeNode ctx parts <;> rfl

theorem normalizeNode_string {n : Raw.Node} {parts : List Raw}
    (has : HasParts n "string_literal" parts) (ctx : Context) :
    normalizeNode ctx n =
      (pieces normalizeNode ctx parts).map fun ps => settle ctx n (stringForm ctx.encoding ps) :=
  normalizeNode_quoted rfl has ctx

/-- The pieces of a normal form, lines apart, are those of the rule's result. -/
theorem piecesOf_settle (ctx : Context) (n : Raw.Node) (f : Form) :
    (piecesOf (settle ctx n f)).map Piece.unlined = (piecesOf f).map Piece.unlined := by
  rw [← piecesOf_unlined, unlined_settle, piecesOf_unlined]

/-- The pieces that the normaliser gives for parts are regular. -/
theorem pieces_regular (ctx : Context) {parts : List Raw} {ps : List Piece}
    (found : pieces normalizeNode ctx parts = .ok ps) : ∀ p ∈ ps, p.Regular ctx.encoding :=
  ensures_pieces (normalizeNode_regular ctx) parts ps found

/-- An embedded literal reads, lines apart, like its parts in its place. -/
theorem embedded_eq_inline (ctx : Context) {A B C : List Raw} (plainA : NoSquiggly A)
    (plainB : NoSquiggly B) (plainC : NoSquiggly C) {outer : String}
    (isOuter : outer ∈ quotedTags) {code literal whole inline : Raw.Node}
    (hasB : HasParts literal "string_literal" B) (embeds : Interpolates code literal)
    (hasWhole : HasParts whole outer (A ++ ([code.toRaw] ++ C)))
    (hasInline : HasParts inline outer (A ++ (B ++ C))) :
    (normalizeNode ctx whole).map Form.unlined = (normalizeNode ctx inline).map Form.unlined := by
  obtain ⟨plain, tag, found⟩ := rule?_of_quoted isOuter
  have plainCode : NoSquiggly [code.toRaw] := by
    intro n member isText
    have same : n.tag = code.tag := congrArg Raw.Node.tag (toRaw_inj (List.mem_singleton.1 member))
    rw [isText, embeds.isCode] at same
    exact absurd same (by decide)
  rw [normalizeNode_quoted found hasWhole, normalizeNode_quoted found hasInline,
    pieces_append _ _ plainA (plainCode.append plainC), pieces_append _ _ plainCode plainC,
    pieces_append _ _ plainA (plainB.append plainC), pieces_append _ _ plainB plainC,
    pieces_interpolates ctx embeds hasB, normalizeNode_string hasB]
  cases foundA : pieces normalizeNode ctx A with
  | error e => rfl
  | ok a =>
    cases foundB : pieces normalizeNode ctx B with
    | error e => rfl
    | ok b =>
      cases foundC : pieces normalizeNode ctx C with
      | error e => rfl
      | ok c =>
        refine congrArg Except.ok ?_
        rw [unlined_settle, unlined_settle]
        have same := (piecesOf_stringForm_interchangeable (pieces_regular ctx foundB) c).after
          (pieces_regular ctx foundA)
        rw [← same.literalForm_eq plain tag]
        apply literalForm_unlined
        simp only [List.map_append, piecesOf_settle]

/-- Two adjacent strings read, lines apart, like one string with the parts of both. -/
theorem concatenation_eq_joined (ctx : Context) {A B : List Raw} (plainA : NoSquiggly A)
    (plainB : NoSquiggly B) {left right joined pair : Raw.Node}
    (hasA : HasParts left "string_literal" A) (hasB : HasParts right "string_literal" B)
    (hasBoth : HasParts joined "string_literal" (A ++ B)) (isPair : pair.tag = "string_concat")
    (first : pair.slot 0 = left.toRaw) (second : pair.slot 1 = right.toRaw) :
    (normalizeNode ctx pair).map Form.unlined = (normalizeNode ctx joined).map Form.unlined := by
  have isLocal : Rule.LocalAt concatenationRule ctx pair := by
    intro inner inner' agree
    exact concatenationRule_congr agree ctx (Nat.le_refl _)
  have found : rule? pair.tag = some concatenationRule := by
    rw [isPair]
    rfl
  have leftAt : pair.nodeAt 0 = .ok left := by
    simp only [Raw.Node.nodeAt, first, Raw.Node.toRaw]
  have rightAt : pair.nodeAt 1 = .ok right := by
    simp only [Raw.Node.nodeAt, second, Raw.Node.toRaw]
  rw [normalizeNode_of_localAt found isLocal, normalizeNode_string hasBoth,
    pieces_append _ _ plainA plainB]
  simp only [concatenationRule, leftAt, rightAt, ok_bind, normalizeNode_string hasA,
    normalizeNode_string hasB]
  cases foundA : pieces normalizeNode ctx A with
  | error e => rfl
  | ok a =>
    cases foundB : pieces normalizeNode ctx B with
    | error e => rfl
    | ok b =>
      refine congrArg Except.ok ?_
      rw [unlined_settle, unlined_settle, Form.unlined_withLine]
      have second := piecesOf_stringForm_interchangeable (pieces_regular ctx foundB) []
      have first := piecesOf_stringForm_interchangeable (pieces_regular ctx foundA)
        (piecesOf (stringForm ctx.encoding b) ++ [])
      have same := first.trans (second.after (pieces_regular ctx foundA))
      rw [List.append_nil, List.append_nil] at same
      rw [stringForm, stringForm, ← same.literalForm_eq]
      apply literalForm_unlined
      simp only [List.map_append, piecesOf_settle, stringForm]

/-- Writing the parts of a literal in the place of the literal changes nothing but lines. A
string, a symbol in quotes or a command in which a string literal is interpolated gives the
same result, or fails with the same error, as one with the parts of that literal in place of
the interpolation; and two adjacent strings are one string with the parts of both. The
surroundings, and with them the encoding of the source, are arbitrary. -/
theorem normalizeNode_literals_in_place (ctx : Context) {A B C : List Raw}
    (plain : NoSquiggly (A ++ B ++ C)) :
    (∀ outer ∈ quotedTags, ∀ code literal whole inline : Raw.Node,
      HasParts literal "string_literal" B → Interpolates code literal →
      HasParts whole outer (A ++ [code.toRaw] ++ C) → HasParts inline outer (A ++ B ++ C) →
        (normalizeNode ctx whole).map Form.unlined = (normalizeNode ctx inline).map Form.unlined) ∧
    (∀ left right pair joined : Raw.Node,
      HasParts left "string_literal" A → HasParts right "string_literal" B →
      pair.tag = "string_concat" → pair.slot 0 = left.toRaw → pair.slot 1 = right.toRaw →
      HasParts joined "string_literal" (A ++ B) →
        (normalizeNode ctx pair).map Form.unlined =
          (normalizeNode ctx joined).map Form.unlined) := by
  have plainA : NoSquiggly A := fun n member => plain n (by simp [member])
  have plainB : NoSquiggly B := fun n member => plain n (by simp [member])
  have plainC : NoSquiggly C := fun n member => plain n (by simp [member])
  constructor
  · intro outer isOuter code literal whole inline hasB embeds hasWhole hasInline
    rw [List.append_assoc] at hasWhole hasInline
    exact embedded_eq_inline ctx plainA plainB plainC isOuter hasB embeds hasWhole hasInline
  · intro left right pair joined hasA hasB isPair first second hasBoth
    exact concatenation_eq_joined ctx plainA plainB hasA hasB hasBoth isPair first second

/-- A string literal between two texts of another one, in a file of raw bytes. -/
theorem normalizeNode_abc_in_place :
    let text : String → Raw := fun s => .node "@tstring_content" [.str s, .pos 1 0, .str "\x22"]
    let quoted : List Raw → Raw.Node := fun parts =>
      ⟨"string_literal", [.node "string_content" parts]⟩
    let code : Raw := .node "string_embexpr" [.node Raw.listTag [(quoted [text "b"]).toRaw]]
    let ctx : Context := { filename := "a.rb", lineOffset := 0, charset := ⟨.binary, false⟩ }
    NoSquiggly [text "a", text "b", text "c"] ∧
      (normalizeNode ctx (quoted [text "a", code, text "c"])).map Form.unlined =
        (normalizeNode ctx (quoted [text "a", text "b", text "c"])).map Form.unlined := by
  intro text quoted code ctx
  have plain : NoSquiggly ([text "a"] ++ [text "b"] ++ [text "c"]) := by
    intro n member _
    have parts : n.children.getD 2 .nil = .str "\x22" := by
      simp only [List.cons_append, List.nil_append, List.mem_cons, List.not_mem_nil, or_false]
        at member
      obtain same | same | same := member <;> cases toRaw_inj (m := ⟨_, _⟩) same <;> rfl
    rw [Raw.Node.slot, parts]
    decide
  refine ⟨plain, ?_⟩
  exact (normalizeNode_literals_in_place ctx plain).1 "string_literal" (by decide)
    ⟨"string_embexpr", _⟩ (quoted [text "b"]) _ _ ⟨rfl, rfl⟩ ⟨rfl, .inl rfl⟩ ⟨rfl, rfl⟩ ⟨rfl, rfl⟩

end Rules

end RubyNormalForm
