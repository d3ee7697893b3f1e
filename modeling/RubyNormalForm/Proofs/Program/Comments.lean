import Mathlib
import RubyNormalForm.Proofs.Rules.Composition.Program

/-!
# Comments sit on definitions

A comment is an attribute of a node that no rule reads: a rule that makes a node over could lose
it, or leave it on a node that is not a definition. Where comments wrap definitions, neither
happens. Each definition in a normal form has the comment of the site it was read at, and no
other node has one.

A comment node wraps what is below it where it is read as an expression. Where a node is opened
for its children whatever its tag is, such as the block of a call, a comment node is not read
as one, and its text is lost.
-/

namespace RubyNormalForm

open Raw Rules

namespace Raw

/-- Each comment node wraps a definition, or a further comment that does. -/
def CommentsWrapDefinitions (r : Raw) : Prop :=
  ∀ n ∈ r.nodes, n.tag = "comment" →
    ∃ m, n.child? 1 = some m ∧ (m.tag = "comment" ∨ m.tag ∈ Raw.definitionTags)

/-- The first node is the second one under comment nodes with the given texts, the outermost
first. -/
inductive Wraps : List String → Node → Node → Prop
  | bare (n : Node) : Wraps [] n n
  | comment {text : String} {texts : List String} {n m d : Node} : n.tag = "comment" →
      n.stringAt 0 = .ok text → n.child? 1 = some m → Wraps texts m d → Wraps (text :: texts) n d

end Raw

/-! ### Definitions under comments -/

/-- A definition by itself has an empty comment. -/
theorem comments_of_definition (ctx : Context) {d : Node}
    (isDefinition : d.tag ∈ Raw.definitionTags) :
    Ensures (normalizeNode ctx d) (fun f => f.comments = some "") := by
  have law : Law (fun _ _ => True) ctx (fun _ => True) := by
    constructor <;> simp [Closed, LineFree]
  have anywhere (inner : Normalizer) (b : Bool) :
      Upholds (fun _ _ => True) ctx (fun _ => True) inner b :=
    fun _ _ _ _ _ _ => trivial
  rw [normalizeNode_eq, normalizeStep]
  split
  · exact ensures_error _
  · rename_i rule found
    rw [ensures_map]
    have here : (Site.expression ctx.inMethodBody).role = .expression := rfl
    refine (defines_rule law (anywhere _) trivial here isDefinition found).mono fun f defines => ?_
    rw [(Form.filled_settle ctx d f).comments]
    exact defines.comments

/-- A comment node puts its text on what it wraps. -/
theorem normalizeNode_comment (ctx : Context) {n m : Node} {text : String}
    (isComment : n.tag = "comment") (isText : n.stringAt 0 = .ok text)
    (isChild : n.child? 1 = some m) :
    (normalizeNode ctx n).map Form.unlined =
      ((normalizeNode ctx m).map Form.unlined).map (Form.commented · (some text)) := by
  have smaller : m.size < n.size := Node.size_lt_of_child? isChild
  have slot : n.nodeAt 1 = .ok m := Node.nodeAt_of_child? isChild
  have rule : rule? n.tag = some commentRule := by
    rw [isComment]
    rfl
  rw [normalizeNode_eq, normalizeStep, rule]
  simp only [commentRule, isText, slot, ok_bind, smaller, if_true]
  cases normalizeNode ctx m with
  | error e => rfl
  | ok f =>
    show Except.ok (settle ctx n { f with comments := some text }).unlined = _
    rw [unlined_settle]
    rfl

/-- The outermost of the comments around a node is the one that it gets. -/
theorem normalizeNode_wrapped (ctx : Context) {texts : List String} {n d : Node}
    (wraps : Wraps texts n d) :
    (normalizeNode ctx n).map Form.unlined =
      ((normalizeNode ctx d).map Form.unlined).map (Form.commented · texts.head?) := by
  induction wraps with
  | bare n => cases normalizeNode ctx n <;> rfl
  | comment isComment isText isChild inside ih =>
    rw [normalizeNode_comment ctx isComment isText isChild, ih]
    rename_i d
    cases normalizeNode ctx d <;> rfl

/-! ### The comments of a program -/

/-- The node is the normal form of a definition at the given site, with the comment of the site
and possibly with arguments after its items. -/
structure Form.Documents (ctx : Context) (p : Site) (d : Node) (g : Form) : Prop where
  definition : d.tag ∈ Raw.definitionTags
  normal : ∃ f, normalizeNode (ctx.within p.inMethodBody) d = .ok f ∧ g.tag = f.tag ∧
    f.unlined.items <+: g.unlined.items
  comments : g.comments = some (p.comment.getD "")

/-- Definitions in a normal form have the comments of their sites, and other nodes have none. -/
structure Form.Commented (r : Raw) (ctx : Context) (g : Form) : Prop where
  isSome : g.comments.isSome = true ↔ g.tag ∈ definitionTags
  documents : g.tag ∈ definitionTags →
    ∃ p d, (p, d) ∈ r.sites {} ∧ p.role = .expression ∧ g.Documents ctx p d

theorem not_mem_definitionTags {tag : String} (unplaced : tag ∉ placedTags) :
    tag ∉ definitionTags := by
  intro isDefinition
  exact unplaced (by simp [placedTags, isDefinition])

/-- The nodes of a tree at their sites, where only comments and definitions have comments. -/
def Known (r : Raw) (p : Site) (n : Node) : Prop :=
  (p, n) ∈ r.sites {} ∧ (p.comment.isSome = true → n.tag = "comment" ∨ n.tag ∈ Raw.definitionTags)

theorem closed_known {r : Raw} (wrap : r.CommentsWrapDefinitions) : Closed (Known r) := by
  intro p n known i m found
  refine ⟨closed_sites {} r known.1 found, fun commented => ?_⟩
  have isComment : n.tag = "comment" ∧ i = 1 := by
    simp only [Site.below] at commented
    split at commented
    · rename_i here
      exact here.2
    · cases commented
  obtain ⟨isComment, rfl⟩ := isComment
  obtain ⟨wrapped, isChild, isDefinition⟩ := wrap n (mem_nodes_of_mem_sites r known.1) isComment
  obtain rfl := Option.some.inj (isChild.symm.trans found)
  exact isDefinition

/-- The comments of its nodes are a law of a tree in which comments wrap definitions. -/
theorem law_commented {r : Raw} (wrap : r.CommentsWrapDefinitions) (ctx : Context) :
    Law (Known r) ctx (Form.Commented r ctx) where
  closed := closed_known wrap
  lineFree := by
    intro f g filled h
    have items : g.unlined.items = f.unlined.items := filled.items
    refine ⟨?_, fun isDefinition => ?_⟩
    · rw [filled.comments, filled.tag]
      exact h.isSome
    · rw [filled.tag] at isDefinition
      obtain ⟨p, d, inTree, isExpression, documents⟩ := h.documents isDefinition
      refine ⟨p, d, inTree, isExpression, documents.definition, ?_, ?_⟩
      · rw [filled.tag, items]
        exact documents.normal
      · rw [filled.comments]
        exact documents.comments
  fresh := by
    intro f noComments unplaced _
    have other : f.tag ∉ definitionTags := not_mem_definitionTags unplaced
    exact ⟨by simp [noComments, other], fun isDefinition => absurd isDefinition other⟩
  rebuilt := by
    intro f g h unplaced sameTag _ comments _
    have other : f.tag ∉ definitionTags := not_mem_definitionTags unplaced
    have noComments : f.comments = none := by
      simpa [other] using h.isSome
    have noComments : g.comments = none := by
      obtain comments | comments := comments
      · rw [comments, noComments]
      · exact comments
    rw [← sameTag] at other
    exact ⟨by simp [noComments, other], fun isDefinition => absurd isDefinition other⟩
  assigned := by
    intro b n t _ _ _ values
    have other : classVariableTag b ∉ definitionTags := by
      cases b <;> decide
    exact ⟨by simp [other], fun isDefinition => absurd isDefinition other⟩
  defined := by
    intro p n f known isExpression isDefinition normal tag comments _
    have documented : (f.commented p.comment).comments = some (p.comment.getD "") := by
      rw [Form.commented, comments]
      cases p.comment <;> rfl
    have tag : (f.commented p.comment).tag ∈ definitionTags := tag
    refine ⟨by simp [documented, tag], fun _ => ?_⟩
    exact ⟨p, n, known.1, isExpression, isDefinition, ⟨f, normal, rfl, List.prefix_rfl⟩, documented⟩
  commented := by
    intro p n known isExpression notComment notDefinition
    have bare : p.comment = none := by
      by_contra commented
      obtain isComment | isDefinition := known.2 (Option.isSome_iff_ne_none.2 commented)
      · exact notComment isComment
      · exact notDefinition isDefinition
    have site : p = .expression p.inMethodBody := by
      obtain ⟨b, role, comment⟩ := p
      simp only at isExpression bare
      rw [isExpression, bare]
      rfl
    rw [bare, ← site]
    exact ⟨known, id⟩
  extended := by
    intro b n m f _ _ _ _ h args
    refine ⟨h.isSome, fun isDefinition => ?_⟩
    obtain ⟨p, d, inTree, isExpression, documents⟩ := h.documents isDefinition
    obtain ⟨f', normal, tag, items⟩ := documents.normal
    refine ⟨p, d, inTree, isExpression, documents.definition, ⟨f', normal, tag, ?_⟩,
      documents.comments⟩
    refine items.trans ?_
    show Item.unlinedAll f.items <+: Item.unlinedAll (f.items ++ _)
    rw [Item.unlinedAll_append]
    exact List.prefix_append _ _

/-- Where each comment node of a program wraps a definition, a node of the normal form has a
comment if and only if it is a definition. Each is the normal form of a definition in the
program, and its comment is that of the site: the text of the outermost of the comment nodes
around the definition, or the empty text if there is none. A definition under comment nodes has
the normal form of the definition by itself, apart from lines, with the outermost text in place
of the empty one. -/
theorem normalize_comments (config : Config) (source : Source) {r : Raw}
    (wrap : r.CommentsWrapDefinitions) {f : Form}
    (succeeds : normalize config source r = .ok (some f)) :
    (∀ g ∈ f.nodes, (g.comments.isSome = true ↔ g.tag ∈ definitionTags) ∧
      (g.tag ∈ definitionTags → ∃ p d, (p, d) ∈ r.sites {} ∧ p.role = .expression ∧
        g.Documents (.ofSource source config) p d)) ∧
    ∀ (ctx : Context) (texts : List String) (n d : Node), Wraps texts n d →
      d.tag ∈ Raw.definitionTags →
      Ensures (normalizeNode ctx d) (fun h => h.comments = some "") ∧
      (normalizeNode ctx n).map Form.unlined =
        (normalizeNode ctx d).map fun h =>
          { h.unlined with comments := some (texts.headD "") } := by
  have root : ∀ n, r.node? = some n → Known r {} n := by
    intro n found
    rw [node?_eq_some found]
    exact ⟨List.mem_cons_self, by simp⟩
  have everywhere := all_normalize (law_commented wrap _) root _ succeeds f rfl
  refine ⟨fun g member => ⟨(everywhere g member).isSome, (everywhere g member).documents⟩, ?_⟩
  intro ctx texts n d wraps isDefinition
  have empty := comments_of_definition ctx isDefinition
  refine ⟨empty, ?_⟩
  rw [normalizeNode_wrapped ctx wraps]
  cases normal : normalizeNode ctx d with
  | error e => rfl
  | ok h =>
    have comments := empty h normal
    show Except.ok (h.unlined.commented texts.head?) = Except.ok _
    rw [Form.commented, show h.unlined.comments = some "" from comments]
    cases texts <;> rfl

/-- A method without parameters whose body is empty. -/
def bareMethod (name : String) (line : Nat) : Node :=
  ⟨"def", [.node "@ident" [.str name, .pos line 4], .nil,
    .node "bodystmt" [.node Raw.listTag [.node "void_stmt" []], .nil, .nil, .nil]]⟩

/-- A class with a comment, in which one method has two comments and another has none. -/
def commentedClass : Raw :=
  .node "program" [.node Raw.listTag [.node "comment" [.str "# a\n", .node "class"
    [.node "const_ref" [.node "@const" [.str "A", .pos 2 6]], .nil,
      .node "bodystmt" [.node Raw.listTag [
        .node "comment" [.str "# b\n", .node "comment" [.str "# c\n", (bareMethod "f" 5).toRaw]],
        (bareMethod "g" 7).toRaw], .nil, .nil, .nil]]]]]

theorem commentedClass_comments :
    commentedClass.CommentsWrapDefinitions ∧
      ∃ f, normalize {} { filename := "a.rb" } commentedClass = .ok (some f) ∧
        (f.nodes.map fun g => (g.tag, g.comments)) =
          [("class", some "# a\n"), ("defn", some "# b\n"), ("args", none), ("nil", none),
            ("defn", some ""), ("args", none), ("nil", none)] ∧
        ∀ g ∈ f.nodes, g.comments.isSome = true ↔ g.tag ∈ definitionTags := by
  have wrap : commentedClass.CommentsWrapDefinitions := by
    simp [CommentsWrapDefinitions, commentedClass, bareMethod, Node.toRaw, nodes, nodesIn,
      Node.child?, Node.slot, Raw.node?, Raw.definitionTags, Raw.listTag]
  let method (name comment : String) (line : Nat) : Item :=
    .node "defn" [.sym name, .node "args" [] (some line) none, .node "nil" [] (some line) none]
      (some line) (some comment)
  let f : Form := ⟨"class", [.sym "A", .nil, method "f" "# b\n" 5, method "g" "" 7], some 2,
    some "# a\n"⟩
  have succeeds : normalize {} { filename := "a.rb" } commentedClass = .ok (some f) := by cbv
  refine ⟨wrap, f, succeeds, rfl, fun g member => ?_⟩
  exact ((normalize_comments {} _ wrap succeeds).1 g member).1

/-- A comment node in the place of a block is not read as a comment, so its text is not on the
definition that it wraps. -/
theorem comment_of_block_lost :
    let method : Node := bareMethod "f" 2
    let comment : Node := ⟨"comment", [.str "# c\n", method.toRaw]⟩
    let call : Raw := .node "vcall" [.node "@ident" [.str "a", .pos 1 0]]
    let r : Raw := .node "method_add_block" [call, comment.toRaw]
    r.CommentsWrapDefinitions ∧ comment ∈ r.nodes ∧ Wraps ["# c\n"] comment method ∧
      ∃ f, normalize {} { filename := "a.rb" } r = .ok (some f) ∧
        (f.nodes.map fun g => (g.tag, g.comments)) =
          [("iter", none), ("call", none), ("defn", some ""), ("args", none), ("nil", none)] := by
  intro method comment call r
  have wrap : r.CommentsWrapDefinitions := by
    simp [CommentsWrapDefinitions, r, call, comment, method, bareMethod, Node.toRaw, nodes, nodesIn,
      Node.child?, Node.slot, Raw.node?, Raw.definitionTags, Raw.listTag]
  let definition : Item :=
    .node "defn" [.sym "f", .node "args" [] none none, .node "nil" [] none none] (some 2) (some "")
  let f : Form := ⟨"iter", [.node "call" [.nil, .sym "a"] (some 1) none, .int 0, definition],
    some 1, none⟩
  have succeeds : normalize {} { filename := "a.rb" } r = .ok (some f) := by cbv
  refine ⟨wrap, ?_, .comment rfl rfl rfl (.bare method), f, succeeds, rfl⟩
  simp [r, call, comment, nodes, nodesIn, Node.toRaw]

end RubyNormalForm
