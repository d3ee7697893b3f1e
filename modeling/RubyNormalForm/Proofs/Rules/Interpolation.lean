import Mathlib.Data.List.Chain
import RubyNormalForm.Proofs.Rules.Folding

/-!
# Interpolated literals in normal form

A literal is put together in one pass over its pieces, which keeps the text before the first
node, the text since the last one and the nodes in different places. Here the result is held to
a plain reading. Pieces and result are both sequences of runs, texts and nodes, and two such
sequences read the same if they are equal once adjacent texts are joined and empty ones are
dropped. The result is in normal form, and reads like the pieces it was made of.
-/

namespace RubyNormalForm

/-! ### Runs -/

/-- A run of a literal: the bytes of a text, or a node between texts. -/
inductive Run where
  | text (bytes : List UInt8)
  | node (f : Form)

namespace Run

/-- The bytes of a text. -/
def bytes : Run → List UInt8
  | .text bytes => bytes
  | .node _ => []

/-- Puts a text before merged runs. -/
def before (bytes : List UInt8) : List Run → List Run
  | .text more :: rest => .text (bytes ++ more) :: rest
  | rest => if bytes.isEmpty then rest else .text bytes :: rest

/-- Joins adjacent texts and drops empty ones. -/
def merge : List Run → List Run
  | [] => []
  | .text bytes :: rest => before bytes (merge rest)
  | .node f :: rest => .node f :: merge rest

@[simp]
theorem before_nil (rest : List Run) : before [] rest = rest := by
  cases rest with
  | nil => rfl
  | cons first rest => cases first <;> rfl

theorem before_append (bytes more : List UInt8) (rest : List Run) :
    before (bytes ++ more) rest = before bytes (before more rest) := by
  cases more with
  | nil => rw [List.append_nil, before_nil]
  | cons b more =>
    cases rest with
    | nil => simp [before]
    | cons first rest => cases first <;> simp [before]

end Run

open Run

namespace Rules

/-- The text of a string node, which is its first item. -/
def stringRuns (items : List Item) : List Run :=
  match items.head? with
  | some (.str s) => [.text s.bytes]
  | _ => []

end Rules

open Rules

/-- What is read off an item of a literal. -/
def Item.runs : Item → List Run
  | .str s => [.text s.bytes]
  | .node tag items line comments =>
    if tag = "str" then stringRuns items else [.node ⟨tag, items, line, comments⟩]
  | _ => []

namespace Form

/-- What is read off the items of a literal from left to right. -/
def runs (f : Form) : List Run :=
  f.items.flatMap Item.runs

/-- What code with the given normal form contributes to the literal around it. A plain string
is its text and an interpolated one what is read off it; anything else is interpolated. -/
def embedded (f : Form) : List Run :=
  if f.tag = "str" then stringRuns f.items
  else if f.tag = "dstr" then f.runs
  else [.node (interpolation f)]

theorem runs_toItem {f : Form} (notStr : f.tag ≠ "str") : f.toItem.runs = [.node f] := by
  rw [toItem, Item.runs, if_neg notStr]

end Form

/-! ### Literals in normal form -/

/-- The tags of literals that have nodes between their texts. -/
def interpolatedTags : List String :=
  ["dstr", "dsym", "dxstr", "dregx", "dregx_once"]

/-- No two strings are adjacent, and each is a text with bytes. -/
structure Alternating (nodes : List Form) : Prop where
  apart : nodes.IsChain fun f g => f.tag = "str" → g.tag ≠ "str"
  texts : ∀ f ∈ nodes, f.tag = "str" → ∃ s, f = plainString s ∧ s.bytes ≠ []

theorem Alternating.cons {f : Form} {nodes : List Form} (h : Alternating nodes)
    (notStr : f.tag ≠ "str") : Alternating (f :: nodes) := by
  refine ⟨?_, ?_⟩
  · refine List.IsChain.cons h.apart fun _ _ isStr => ?_
    exact absurd isStr notStr
  · intro g member isStr
    obtain rfl | member := List.mem_cons.1 member
    · exact absurd isStr notStr
    · exact h.texts g member isStr

/-- A merged text stands at the end of the nodes or before one that is no string. -/
theorem Alternating.mergedText_append {nodes : List Form} (h : Alternating nodes)
    (starts : ∀ f ∈ nodes.head?, f.tag ≠ "str") (s : ByteString) :
    Alternating (mergedText s ++ nodes) := by
  rw [mergedText]
  split
  · exact h
  · rename_i bytes
    refine ⟨List.IsChain.cons h.apart fun f first _ => starts f first, ?_⟩
    intro g member isStr
    obtain rfl | member := List.mem_cons.1 member
    · exact ⟨s, rfl, by simpa [ByteString.isEmpty] using bytes⟩
    · exact h.texts g member isStr

/-- The text of a plain symbol or a plain regular expression. -/
def Item.plainText? : Item → Option String
  | .sym name => some name
  | .regexp r => some r.source
  | _ => none

/-- The node is the normal form of a literal with the given runs. -/
structure Form.IsLiteral (f : Form) (source : List Run) : Prop where
  /-- It is interpolated if and only if there is a node among the runs. -/
  interpolated : f.tag ∈ interpolatedTags ↔ ∃ g, .node g ∈ source
  /-- An interpolated one is a head, then nodes that begin with one that is no string, then at
  most one number for the options of a regular expression. -/
  shape : f.tag ∈ interpolatedTags → ∃ (head : ByteString) (first : Form) (nodes : List Form)
    (options : List Int),
    f.items = .str head :: (first :: nodes).map Form.toItem ++ options.map .int ∧
      first.tag ≠ "str" ∧ Alternating (first :: nodes) ∧ options.length ≤ 1 ∧
      (options ≠ [] → f.tag = "dregx" ∨ f.tag = "dregx_once")
  /-- It reads like the runs. -/
  reading : f.tag ≠ "lit" → merge f.runs = merge source
  /-- A plain symbol or regular expression shows the bytes of all texts together. -/
  shown : f.tag = "lit" → ∃ item, f.items = [item] ∧
    item.plainText? = some (Utf8.toText (source.flatMap Run.bytes))

/-- The line of a literal does not matter. -/
theorem Form.IsLiteral.withLine {f : Form} {source : List Run} (h : f.IsLiteral source)
    (line : Option Nat) : (f.withLine line).IsLiteral source :=
  ⟨h.interpolated, h.shape, h.reading, h.shown⟩

namespace Rules

/-! ### Putting pieces together -/

/-- A piece as a run. -/
def Piece.run : Piece → Run
  | .text s => .text s.bytes
  | .form f => .node f

theorem map_run_stringPieces (items : List Item) :
    (stringPieces items).map Piece.run = stringRuns items := by
  rw [stringPieces, stringRuns]
  cases items.head? with
  | none => rfl
  | some item => cases item <;> rfl

theorem map_run_piecesOfItem (item : Item) : (piecesOfItem item).map Piece.run = item.runs := by
  cases item with
  | node tag items line comments =>
    by_cases isStr : tag = "str"
    · simp only [piecesOfItem, Item.runs, isStr, beq_self_eq_true, if_true]
      exact map_run_stringPieces items
    · simp [piecesOfItem, Item.runs, isStr, Piece.run]
  | _ => rfl

theorem map_run_piecesOf (f : Form) : (piecesOf f).map Piece.run = f.embedded := by
  by_cases isStr : f.tag = "str"
  · simp only [piecesOf, Form.embedded, Form.is, isStr, beq_self_eq_true, if_true]
    exact map_run_stringPieces f.items
  · by_cases isDstr : f.tag = "dstr"
    · simp [piecesOf, Form.embedded, Form.is, isDstr, Form.runs, List.map_flatMap,
        map_run_piecesOfItem]
    · simp [piecesOf, Form.embedded, Form.is, isStr, isDstr, Piece.run]

/-- No node among the pieces is a string. -/
def NoStrings (ps : List Piece) : Prop :=
  ∀ f, .form f ∈ ps → f.tag ≠ "str"

theorem NoStrings.tail {p : Piece} {ps : List Piece} (h : NoStrings (p :: ps)) : NoStrings ps :=
  fun f member => h f (List.mem_cons_of_mem _ member)

theorem NoStrings.of_regular {encoding : Encoding} {ps : List Piece}
    (regular : ∀ p ∈ ps, p.Regular encoding) : NoStrings ps :=
  fun f member => regular (.form f) member

theorem alternating_gather (encoding : Encoding) {ps : List Piece} (noStrings : NoStrings ps)
    (pending : ByteString) : Alternating (gather encoding pending ps) := by
  induction ps generalizing pending with
  | nil =>
    have none : Alternating [] := ⟨.nil, by simp⟩
    simpa [gather] using none.mergedText_append (by simp) pending
  | cons p ps ih =>
    cases p with
    | text s => exact ih noStrings.tail _
    | form f =>
      have notStr := noStrings f List.mem_cons_self
      refine ((ih noStrings.tail _).cons notStr).mergedText_append ?_ pending
      rintro g ⟨⟩
      exact notStr

theorem before_empty (encoding : Encoding) (rest : List Run) :
    before (ByteString.empty encoding).bytes rest = rest :=
  before_nil rest

/-- What is read off a merged text. -/
theorem merge_mergedText (s : ByteString) (rest : List Run) :
    merge ((mergedText s).flatMap (fun f => f.toItem.runs) ++ rest) =
      before s.bytes (merge rest) := by
  rw [mergedText]
  split
  · rename_i empty
    rw [List.isEmpty_iff.1 empty, before_nil]
    rfl
  · rfl

/-- The nodes after the first one read like the pending text and the pieces. -/
theorem merge_gather (encoding : Encoding) {ps : List Piece} (noStrings : NoStrings ps)
    (pending : ByteString) :
    merge ((gather encoding pending ps).flatMap fun f => f.toItem.runs) =
      before pending.bytes (merge (ps.map Piece.run)) := by
  induction ps generalizing pending with
  | nil => simpa [gather, merge] using merge_mergedText pending []
  | cons p ps ih =>
    cases p with
    | text s =>
      rw [gather, ih noStrings.tail, List.map_cons, Piece.run, merge, ← before_append]
      rfl
    | form f =>
      have notStr := noStrings f List.mem_cons_self
      rw [gather, List.flatMap_append, merge_mergedText, List.flatMap_cons,
        Form.runs_toItem notStr, List.singleton_append, merge, ih noStrings.tail, before_empty,
        List.map_cons, Piece.run, merge]

/-- A literal without nodes is its head, which has the bytes of all texts; one with nodes is a
head and nodes in normal form, which read like the pieces. -/
theorem assemble_cases (encoding : Encoding) {ps : List Piece} (noStrings : NoStrings ps)
    (head : ByteString) :
    (∃ s : ByteString, assemble encoding head ps = (s, none) ∧
      (∀ g, .node g ∉ ps.map Piece.run) ∧
      s.bytes = head.bytes ++ (ps.map Piece.run).flatMap Run.bytes ∧
      before s.bytes [] = before head.bytes (merge (ps.map Piece.run))) ∨
    ∃ (s : ByteString) (first : Form) (nodes : List Form),
      assemble encoding head ps = (s, some (first :: nodes)) ∧
      (∃ g, .node g ∈ ps.map Piece.run) ∧ first.tag ≠ "str" ∧ Alternating (first :: nodes) ∧
      before s.bytes (merge ((first :: nodes).flatMap fun f => f.toItem.runs)) =
        before head.bytes (merge (ps.map Piece.run)) := by
  induction ps generalizing head with
  | nil => exact .inl ⟨head, rfl, nofun, (List.append_nil _).symm, rfl⟩
  | cons p ps ih =>
    cases p with
    | text t =>
      have joined : before (head.append t).bytes (merge (ps.map Piece.run)) =
          before head.bytes (merge ((Piece.text t :: ps).map Piece.run)) :=
        before_append _ _ _
      obtain ⟨s, found, none, bytes, same⟩ | ⟨s, first, nodes, found, ⟨g, isNode⟩, rest⟩ :=
        ih noStrings.tail (head.append t)
      · refine .inl ⟨s, found, ?_, ?_, same.trans joined⟩
        · simpa [Piece.run] using none
        · rw [bytes, ByteString.append, List.append_assoc]
          rfl
      · obtain ⟨notStr, alternating, same⟩ := rest
        exact .inr ⟨s, first, nodes, found, ⟨g, List.mem_cons_of_mem _ isNode⟩, notStr,
          alternating, same.trans joined⟩
    | form f =>
      have notStr := noStrings f List.mem_cons_self
      have alternating := (alternating_gather encoding noStrings.tail (.empty encoding)).cons notStr
      refine .inr ⟨head, f, _, rfl, ⟨f, List.mem_cons_self⟩, notStr, alternating, ?_⟩
      rw [List.flatMap_cons, Form.runs_toItem notStr, List.singleton_append, merge,
        merge_gather encoding noStrings.tail, before_empty]
      rfl

/-! ### Forms of literals -/

/-- A plain literal: a node that is not interpolated, made from the bytes of texts. -/
theorem isLiteral_plain {f : Form} {source : List Run} (plain : f.tag ∉ interpolatedTags)
    (noNodes : ∀ g, .node g ∉ source) (reading : f.tag ≠ "lit" → merge f.runs = merge source)
    (shown : f.tag = "lit" → ∃ item, f.items = [item] ∧
      item.plainText? = some (Utf8.toText (source.flatMap Run.bytes))) : f.IsLiteral source where
  interpolated := ⟨fun isTag => absurd isTag plain, fun ⟨g, isNode⟩ => absurd isNode (noNodes g)⟩
  shape isTag := absurd isTag plain
  reading := reading
  shown := shown

/-- An interpolated literal: a head, nodes in normal form, and options. -/
theorem isLiteral_interpolated {f first : Form} {nodes : List Form} {head : ByteString}
    (options : List Int) {source : List Run} (isTag : f.tag ∈ interpolatedTags)
    (items : f.items = .str head :: (first :: nodes).map Form.toItem ++ options.map .int)
    (hasNode : ∃ g, .node g ∈ source) (notStr : first.tag ≠ "str")
    (alternating : Alternating (first :: nodes)) (few : options.length ≤ 1)
    (ofRegexp : options ≠ [] → f.tag = "dregx" ∨ f.tag = "dregx_once")
    (same : before head.bytes (merge ((first :: nodes).flatMap fun f => f.toItem.runs)) =
      merge source) : f.IsLiteral source where
  interpolated := ⟨fun _ => hasNode, fun _ => isTag⟩
  shape _ := ⟨head, first, nodes, options, items, notStr, alternating, few, ofRegexp⟩
  reading _ := by
    have unread : (options.map Item.int).flatMap Item.runs = [] := by
      simp [List.flatMap_map, Item.runs]
    rw [Form.runs, items, List.flatMap_append, unread, List.append_nil, List.flatMap_cons,
      List.flatMap_map, ← same]
    rfl
  shown isLit := by
    rw [isLit] at isTag
    exact absurd isTag (by decide)

/-- A way to put pieces together that gives the normal form of a literal with these runs. -/
def Literalizes (form : Encoding → List Piece → Form) : Prop :=
  ∀ encoding ps, NoStrings ps → (form encoding ps).IsLiteral (ps.map Piece.run)

theorem literalizes_literalForm {plain : ByteString → Form} {tag : String}
    (isTag : tag ∈ interpolatedTags)
    (plains : ∀ s, (plain s).tag ∉ interpolatedTags ∧
      ((plain s).tag ≠ "lit" → (plain s).items = [.str s]) ∧
      ((plain s).tag = "lit" → (plain s).items = [.sym s.toText])) :
    Literalizes fun encoding => literalForm encoding plain tag := by
  intro encoding ps noStrings
  obtain ⟨s, found, none, bytes, same⟩ | ⟨s, first, nodes, found, hasNode, notStr, alternating,
    same⟩ := assemble_cases encoding noStrings (.empty encoding)
  · obtain ⟨isPlain, texts, symbols⟩ := plains s
    simp only [literalForm, found]
    refine isLiteral_plain isPlain none (fun notLit => ?_) (fun isLit => ?_)
    · rw [Form.runs, texts notLit]
      exact same.trans (before_empty _ _)
    · refine ⟨_, symbols isLit, congrArg (fun bytes => some (Utf8.toText bytes)) bytes⟩
  · simp only [literalForm, found]
    exact isLiteral_interpolated [] isTag (List.append_nil _).symm hasNode notStr
      alternating (Nat.zero_le 1) (fun some => absurd rfl some) (same.trans (before_empty _ _))

theorem literalizes_stringForm : Literalizes stringForm :=
  literalizes_literalForm (by decide) fun _ => ⟨by simp [plainString, Form.of, interpolatedTags],
    fun _ => rfl, fun isLit => absurd isLit (by simp [plainString, Form.of])⟩

theorem literalizes_symbolForm : Literalizes symbolForm :=
  literalizes_literalForm (by decide) fun _ => ⟨by simp [literal, Form.of, interpolatedTags],
    fun notLit => absurd rfl notLit, fun _ => rfl⟩

theorem literalizes_commandForm : Literalizes commandForm :=
  literalizes_literalForm (by decide) fun _ => ⟨by simp [Form.of, interpolatedTags],
    fun _ => rfl, fun isLit => absurd isLit (by simp [Form.of])⟩

theorem literalizes_regexpForm (flags : Regexp.Flags) :
    Literalizes fun encoding => regexpForm encoding flags := by
  intro encoding ps noStrings
  obtain ⟨s, found, none, bytes, -⟩ | ⟨s, first, nodes, found, hasNode, notStr, alternating,
    same⟩ := assemble_cases encoding noStrings (.empty encoding)
  · simp only [regexpForm, found]
    refine isLiteral_plain (by simp [literal, Form.of, interpolatedTags]) none
      (fun notLit => absurd rfl notLit) (fun _ => ?_)
    exact ⟨_, rfl, congrArg (fun bytes => some (Utf8.toText bytes)) bytes⟩
  · let tag := if flags.once then "dregx_once" else "dregx"
    have isRegexp : tag = "dregx" ∨ tag = "dregx_once" := by
      simp only [tag]
      split
      · exact .inr rfl
      · exact .inl rfl
    have isTag : tag ∈ interpolatedTags := by
      obtain isTag | isTag := isRegexp <;> rw [isTag] <;> decide
    have same := same.trans (before_empty _ _)
    simp only [regexpForm, found]
    split
    · exact isLiteral_interpolated [] isTag (List.append_nil _).symm hasNode notStr
        alternating (Nat.zero_le 1) (fun some => absurd rfl some) same
    · exact isLiteral_interpolated [flags.options] isTag rfl hasNode notStr
        alternating (Nat.le_refl 1) (fun _ => isRegexp) same

end Rules

end RubyNormalForm
