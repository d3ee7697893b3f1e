import Mathlib
import RubyNormalForm.Proofs.Rules.Composition.Program

/-!
# Programs conform to the schema

Every node of a normal form has the items that its tag prescribes, so that a consumer may take
them apart by position. The one way to break this is to put arguments after a node that has no
place for them; a parser writes arguments in parentheses after calls only.
-/

namespace RubyNormalForm

open Raw Rules

namespace Raw

/-- The tags of nodes that may be given arguments in parentheses. -/
def calleeTags : List String :=
  ["call", "fcall", "vcall", "command", "command_call", "aref", "super", "zsuper", "yield"]

/-- Arguments in parentheses stand after a callee. -/
def CallsWellFormed (r : Raw) : Prop :=
  ∀ n ∈ r.nodes, n.tag = "method_add_arg" → ∃ m, n.child? 0 = some m ∧ m.tag ∈ calleeTags

theorem hereditary_callsWellFormed : Hereditary CallsWellFormed := by
  constructor
  · rintro n ⟨⟩
  · intro tag children h c isChild n member
    refine h n ?_
    rw [nodes, nodesIn_eq_flatMap]
    exact List.mem_cons_of_mem _ (List.mem_flatMap.2 ⟨c, isChild, member⟩)

end Raw

/-- The tags of the normal forms of callees. -/
def extensibleTags : List String :=
  ["call", "safe_call", "super", "zsuper", "yield"]

theorem callTag_mem_extensibleTags (operator : Raw) : callTag operator ∈ extensibleTags := by
  rw [callTag]
  split <;> decide

/-- The rules for callees give calls. -/
theorem tag_of_calleeRule {tag : String} {rule : Rule} (isCallee : tag ∈ calleeTags)
    (found : rule? tag = some rule) (inner : Normalizer) (ctx : Context) (n : Node) :
    Ensures (rule inner ctx n) (fun f => f.tag ∈ extensibleTags) := by
  simp only [calleeTags, List.mem_cons, List.not_mem_nil, or_false] at isCallee
  obtain rfl | rfl | rfl | rfl | rfl | rfl | rfl | rfl | rfl := isCallee <;>
    obtain rfl := Option.some.inj found
  · simp [callRule, callTag_mem_extensibleTags]
  · simp [bareCallRule, extensibleTags]
  · simp [bareCallRule, extensibleTags]
  · simp [commandRule, bareCallRule, Form.pushAll, extensibleTags]
  · simp [commandCallRule, callRule, Form.pushAll, callTag_mem_extensibleTags]
  · simp [elementRule, Form.pushAll, extensibleTags]
  · simp [superRule, Form.pushAll, extensibleTags]
  · simp [constant, extensibleTags]
  · simp [yieldRule, Form.pushAll, extensibleTags]

theorem tag_of_callee (ctx : Context) {n : Node} (isCallee : n.tag ∈ calleeTags) :
    Ensures (normalizeNode ctx n) (fun f => f.tag ∈ extensibleTags) := by
  rw [normalizeNode_eq, normalizeStep]
  split
  · exact ensures_error _
  · rename_i rule found
    rw [ensures_map]
    refine (tag_of_calleeRule isCallee found _ ctx n).mono fun f isCall => ?_
    rw [(Form.filled_settle ctx n f).tag]
    exact isCall

/-- A node that takes arguments conforms with more of them. -/
theorem conforms_pushAll {f : Form} (isCall : f.tag ∈ extensibleTags) (h : f.Conforms)
    (args : List Form) : (f.pushAll args).Conforms := by
  simp only [extensibleTags, List.mem_cons, List.not_mem_nil, or_false] at isCall
  obtain isCall | isCall | isCall | isCall | isCall := isCall
  · exact h.pushAll (.inl isCall) args
  · exact h.pushAll (.inr isCall) args
  all_goals
    refine .free ?_
    show f.tag ∉ schemaTags
    rw [isCall]
    decide

/-- To conform is a law where arguments follow callees. -/
theorem law_conforms (ctx : Context) :
    Law (fun _ n => n.toRaw.CallsWellFormed) ctx Form.Conforms where
  closed := by
    intro p n wellFormed i m found
    exact hereditary_callsWellFormed.child? wellFormed found
  lineFree := lineFree_conforms
  fresh _ _ conforms := conforms
  rebuilt h _ _ _ _ keeps := keeps h
  assigned := by
    intro b n t _ _ _ values
    refine .free ?_
    show classVariableTag b ∉ schemaTags
    cases b <;> decide
  defined _ _ _ _ _ _ conforms := conforms
  commented wellFormed _ _ _ := ⟨wellFormed, id⟩
  extended := by
    intro b n m f wellFormed isTag isCallee normal conforms args
    obtain ⟨callee, found, tagged⟩ := wellFormed n List.mem_cons_self isTag
    have child : n.child? 0 = some m := ensures_nodeAt (fun _ found => found) m isCallee
    obtain rfl := Option.some.inj (child.symm.trans found)
    exact conforms_pushAll (tag_of_callee _ tagged f normal) conforms args

/-- Every node of the normal form of a program has the shape that its tag prescribes, if
arguments in parentheses follow callees. -/
theorem normalize_conforms (config : Config) (source : Source) {r : Raw}
    (wellFormed : r.CallsWellFormed) {f : Form}
    (succeeds : normalize config source r = .ok (some f)) :
    ∀ g ∈ f.nodes, g.Conforms := by
  have root : ∀ n, r.node? = some n → n.toRaw.CallsWellFormed := by
    intro n found
    exact node?_eq_some found ▸ wellFormed
  exact all_normalize (law_conforms _) root _ succeeds f rfl

/-- A method that hands a block to a call with an argument if both of two conditions hold. -/
def guardedCall : Raw :=
  let name (text : String) (line : Nat) : Raw := .node "@ident" [.str text, .pos line 0]
  let block : Raw := .node "brace_block" [.nil, .node Raw.listTag [.node "void_stmt" []]]
  let call : Raw := .node "method_add_arg" [.node "fcall" [name "g" 3],
    .node "arg_paren" [.node Raw.listTag [.node "@int" [.str "1", .pos 3 2]]]]
  let guard : Raw := .node "if" [.node "binary" [.node "vcall" [name "a" 2], .sym "&&",
    .node "vcall" [name "b" 2]], .node Raw.listTag [.node "method_add_block" [call, block]], .nil]
  .node "program" [.node Raw.listTag [.node "def" [name "f" 1, .nil,
    .node "bodystmt" [.node Raw.listTag [guard], .nil, .nil, .nil]]]]

theorem guardedCall_conforms :
    guardedCall.CallsWellFormed ∧
      ∃ f, normalize {} { filename := "a.rb" } guardedCall = .ok (some f) ∧
        f.nodes.map Form.tag =
          ["defn", "args", "if", "and", "call", "call", "iter", "call", "lit"] ∧
        ∀ g ∈ f.nodes, g.Conforms := by
  have wellFormed : guardedCall.CallsWellFormed := by
    simp [CallsWellFormed, guardedCall, nodes, nodesIn, Node.child?, Node.slot, Raw.node?,
      calleeTags, Raw.listTag]
  let call (name : String) (args : List Item) (line : Nat) : Item :=
    .node "call" (.nil :: .sym name :: args) (some line) none
  let guard : Item := .node "and" [call "a" [] 2, call "b" [] 2] (some 2) none
  let iteration : Item :=
    .node "iter" [call "g" [.node "lit" [.int 1] (some 3) none] 3, .int 0] (some 3) none
  let f : Form := ⟨"defn", [.sym "f", .node "args" [] (some 1) none,
    .node "if" [guard, iteration, .nil] (some 2) none], some 1, some ""⟩
  have succeeds : normalize {} { filename := "a.rb" } guardedCall = .ok (some f) := by cbv
  exact ⟨wellFormed, f, succeeds, rfl, normalize_conforms {} _ wellFormed succeeds⟩

end RubyNormalForm
