import RubyNormalForm.Proofs.Program.Bodies

/-!
# What definitions, blocks and conditionals enclose

A statement deep inside a program is normalised in surroundings that are handed down to it: the
body of a definition is read in its own scope, and all else about the definition (parameters,
receiver, superclass), a block, a lambda, a branch or a loop in the scope around it. The normal
form of what is enclosed is part of the normal form of what encloses it, so an assignment to a
class variable inside turns up in the whole.
-/

namespace RubyNormalForm

open Raw Rules

/-! ### Defaults of parameters -/

/-- The node is the default of an optional or a keyword parameter in a list of parameters. -/
def Raw.Default (r : Raw) (m : Node) : Prop :=
  ∃ (list pair : Node) (i : Nat) (pairs : List Raw), (insideParentheses r).node? = some list ∧
    (i = 1 ∨ i = 4) ∧ list.slot i = .node listTag pairs ∧ pair.toRaw ∈ pairs ∧
    pair.child? 1 = some m

theorem mem_of_presentNodes {n pair : Node} {children : List Raw} {nodes : List Node}
    (found : n.presentNodes children = .ok nodes) (member : pair.toRaw ∈ children) :
    pair ∈ nodes := by
  induction children generalizing nodes with
  | nil => cases member
  | cons child rest ih =>
    rw [Node.presentNodes.eq_def] at found
    dsimp only at found
    split at found
    · rename_i absent
      obtain rfl | member := List.mem_cons.1 member
      · cases absent
      · exact ih found member
    · split at found
      · obtain ⟨others, areOthers, made⟩ := bind_eq_ok.1 found
        cases made
        obtain same | member := List.mem_cons.1 member
        · cases same
          exact List.mem_cons_self
        · exact List.mem_cons_of_mem _ (ih areOthers member)
      · cases found

theorem exists_of_pairParameters {parameter : Node → Result Item} {pairs : List Node}
    {items : List Item} (found : pairParameters parameter pairs = .ok items) {pair : Node}
    (member : pair ∈ pairs) : ∃ x ∈ items, parameter pair = .ok x :=
  exists_of_each (fun _ _ => rfl) found member

section Defaults

variable {inner : Normalizer} {ctx : Context} {m : Node}

/-- The normal form of the node is kept in one of the items. -/
def InItems (inner : Normalizer) (ctx : Context) (m : Node) (items : List Item) : Prop :=
  ∃ f g, inner ctx m = .ok f ∧ f.KeptIn g ∧ g.toItem ∈ items

theorem default_of_optionalParameter {pair : Node} (isChild : pair.child? 1 = some m) :
    Ensures (optionalParameter inner ctx pair) fun x => InItems inner ctx m [x] := by
  simp only [optionalParameter, Node.nodeAt_of_child? isChild, ok_bind, ensures_bind, ensures_pure]
  refine .of_forall fun parameter => ?_
  intro f isForm
  refine ⟨f, _, isForm, .of_mem ?_, List.mem_singleton_self _⟩
  simp [Form.of]

theorem default_of_keywordParameter {pair : Node} (isChild : pair.child? 1 = some m) :
    Ensures (keywordParameter inner ctx pair) fun x => InItems inner ctx m [x] := by
  have slot : pair.slot 1 = m.toRaw := node?_eq_some isChild
  simp only [keywordParameter, slot, Node.toRaw, value?, ensures_bind, ensures_map, ensures_pure]
  refine .of_forall fun label => ?_
  intro f isForm
  refine ⟨f, _, isForm, .of_mem ?_, List.mem_singleton_self _⟩
  simp [Form.of, Form.push?, Form.push]

/-- The default of a pair is kept in the items that the pairs of its slot become. -/
theorem default_of_pairs {parameter : Node → Result Item} {pair : Node}
    (one : Ensures (parameter pair) fun x => InItems inner ctx m [x]) {slot : Raw}
    {children : List Raw} (isSlot : slot = .node listTag children)
    (isPair : pair.toRaw ∈ children) :
    Ensures (listNodes slot) fun pairs =>
      Ensures (pairParameters parameter pairs) (InItems inner ctx m) := by
  intro pairs arePairs items found
  rw [isSlot] at arePairs
  have member : pair ∈ pairs := mem_of_presentNodes arePairs isPair
  obtain ⟨x, isItem, isParameter⟩ := exists_of_pairParameters found member
  obtain ⟨f, g, isForm, kept, same⟩ := one x isParameter
  obtain rfl := List.mem_singleton.1 same
  exact ⟨f, g, isForm, kept, isItem⟩

theorem InItems.mono {items others : List Item} (h : InItems inner ctx m items)
    (included : items ⊆ others) : InItems inner ctx m others := by
  obtain ⟨f, g, isForm, kept, isItem⟩ := h
  exact ⟨f, g, isForm, kept, included isItem⟩

theorem default_of_methodParameters {r : Raw} (isDefault : r.Default m) :
    Ensures (methodParameters inner ctx r) fun args =>
      ∃ f, inner ctx m = .ok f ∧ f.KeptIn args := by
  obtain ⟨list, pair, i, pairs, isList, isSlot, slot, isPair, isChild⟩ := isDefault
  have items : Ensures (parameterItems inner ctx list) (InItems inner ctx m) := by
    simp only [parameterItems, ensures_bind, ensures_pure]
    obtain rfl | rfl := isSlot
    · have optional : Ensures (listNodes (list.slot 1)) fun pairs =>
          Ensures (pairParameters (optionalParameter inner ctx) pairs) (InItems inner ctx m) :=
        default_of_pairs (default_of_optionalParameter isChild) slot isPair
      refine .of_forall fun required => optional.mono fun nodes inNodes => ?_
      refine inNodes.mono fun items inItems => ?_
      refine .of_forall fun rest => .of_forall fun post => .of_forall fun nodes => ?_
      refine .of_forall fun keywords => .of_forall fun keywordRest => .of_forall fun block => ?_
      exact inItems.mono fun x member => by simp [member]
    · have keyword : Ensures (listNodes (list.slot 4)) fun pairs =>
          Ensures (pairParameters (keywordParameter inner ctx) pairs) (InItems inner ctx m) :=
        default_of_pairs (default_of_keywordParameter isChild) slot isPair
      refine .of_forall fun required => .of_forall fun nodes => .of_forall fun optional => ?_
      refine .of_forall fun rest => .of_forall fun post => keyword.mono fun nodes inNodes => ?_
      refine inNodes.mono fun items inItems => ?_
      refine .of_forall fun keywordRest => .of_forall fun block => ?_
      exact inItems.mono fun x member => by simp [member]
  simp only [methodParameters, node?_eq_some isList, Node.toRaw]
  split
  · rw [ensures_map]
    refine items.mono fun items inItems => ?_
    obtain ⟨f, g, isForm, kept, isItem⟩ := inItems
    exact ⟨f, isForm, kept.trans (.of_mem isItem)⟩
  · exact ensures_error _

end Defaults

/-! ### Conditions -/

section Conditions

/-- The node that a condition is read from is another one only if that is a range. -/
theorem conditionNode_eq {m : Node} (notRange : (conditionNode m).isRange = false) :
    conditionNode m = m := by
  rw [conditionNode.eq_def] at notRange ⊢
  split
  · rename_i inside found
    simp only [found] at notRange
    split
    · rename_i isRange
      rw [if_pos isRange, isRange] at notRange
      cases notRange
    · rfl
  · rfl

/-- An assignment in a node with another tag is in one of its items. -/
theorem Form.keptIn_of_items {f g : Form} (notVariable : ∀ b, f.tag ≠ classVariableTag b)
    (included : Item.nodesIn f.items ⊆ g.nodes) : f.KeptIn g := by
  rintro ctx t ⟨h, member, assigns⟩
  obtain rfl | below := List.mem_cons.1 member
  · exact absurd assigns.tag (notVariable _)
  · exact ⟨h, included below, assigns⟩

theorem keptIn_condition (f : Form) : f.KeptIn (Condition.ofForm f).expr := by
  have notVariable (isNot : f.is "not" = true) (b : Bool) : f.tag ≠ classVariableTag b := by
    rw [eq_of_beq isNot]
    cases b <;> decide
  rw [Condition.ofForm.eq_def]
  split
  · rename_i tag items line comments isNot isItems
    refine .trans (Form.keptIn_of_items (notVariable isNot) ?_) (Form.keptIn_withLine _ _)
    rw [isItems, Item.nodesIn, Item.nodesIn, List.append_nil]
    exact List.Subset.refl _
  · rename_i item notNode isNot isItems
    refine Form.keptIn_of_items (notVariable isNot) ?_
    rw [isItems]
    cases item with
    | node tag items line comments => exact absurd rfl (notNode tag items line comments)
    | _ => simp [Item.nodesIn, Item.nodes]
  · split
    · exact .trans (.of_mem (by simp [Form.of])) (Form.keptIn_withLine _ _)
    · exact .refl f

variable {inner : Normalizer} {ctx : Context} {m : Node}

theorem kept_of_condition (flipFlop : Bool) (notRange : (conditionNode m).isRange = false) :
    Ensures (condition inner ctx flipFlop m) fun c => ∃ f, inner ctx m = .ok f ∧
      f.KeptIn c.expr := by
  have same := conditionNode_eq notRange
  rw [same] at notRange
  rw [condition, same, conditionForm, notRange, Bool.and_false, if_neg Bool.false_ne_true,
    ensures_map]
  intro f isForm
  exact ⟨f, isForm, keptIn_condition f⟩

end Conditions

/-! ### What a node encloses -/

/-- The parts of definitions and blocks that are normalised in the surroundings of the node
itself: the receiver of a singleton method, the superclass of a class, what a singleton class
opens, the call before a block, and what a comment wraps. -/
def surroundingParts : List (String × Nat) :=
  [("defs", 0), ("class", 1), ("sclass", 0), ("method_add_block", 0), ("comment", 1)]

/-- The statements that a modifier or a ternary operator chooses between or repeats. -/
def modifierParts : List (String × Nat) :=
  [("if_mod", 1), ("unless_mod", 1), ("ifop", 1), ("ifop", 2), ("while_mod", 1),
    ("until_mod", 1), ("rescue_mod", 0), ("rescue_mod", 1)]

/-- The places of the parameters of methods. -/
def parameterParts : List (String × Nat) :=
  [("def", 1), ("defs", 3)]

/-- The tags of nodes that begin with a condition. -/
def conditionTags : List String :=
  ["if", "unless", "elsif", "if_mod", "unless_mod", "ifop", "while", "until", "while_mod",
    "until_mod"]

/-- The node encloses the second, which is normalised in the surroundings before it. -/
inductive Encloses (ctx : Context) (n : Node) : Context → Node → Prop
  | statement {c : Context} {r part : Raw} {m : Node} : HoldsBody ctx n c r → BodyPart r part →
      Statement part m → Encloses ctx n c m
  | part {i : Nat} {m : Node} : (n.tag, i) ∈ surroundingParts → n.child? i = some m →
      Encloses ctx n ctx m
  | modified {i : Nat} {m : Node} : (n.tag, i) ∈ modifierParts → n.child? i = some m →
      Encloses ctx n ctx m
  | default {i : Nat} {m : Node} : (n.tag, i) ∈ parameterParts → (n.slot i).Default m →
      Encloses ctx n ctx m
  | condition {m : Node} : n.tag ∈ conditionTags → n.child? 0 = some m →
      (conditionNode m).isRange = false → Encloses ctx n ctx m
  | alternative {m : Node} : n.tag ∈ conditionalTags → n.child? 2 = some m → m.tag = "elsif" →
      Encloses ctx n ctx m

section Enclosing

variable {inner : Normalizer} {ctx c : Context} {n m : Node}

/-- The normal form of the node is kept in the given one. -/
def Encased (inner : Normalizer) (c : Context) (m : Node) (f : Form) : Prop :=
  ∃ g, inner c m = .ok g ∧ g.KeptIn f

theorem encased_of_keepsBody {r part : Raw} {f : Form} (keeps : KeepsBody inner c r f)
    (isPart : BodyPart r part) (isStatement : Statement part m) : Encased inner c m f := by
  obtain ⟨forms, areForms, kept⟩ := keeps
  obtain ⟨others, areOthers, among⟩ := kept_of_bodyPart isPart forms areForms
  obtain ⟨g, member, isForm⟩ := exists_of_statement isStatement others areOthers
  obtain ⟨h, isStatement, inside⟩ := among g member
  exact ⟨g, isForm, inside.trans (kept h isStatement)⟩

theorem value?_of_child? {i : Nat} (isChild : n.child? i = some m) :
    value? inner ctx (n.slot i) = (inner ctx m).map some := by
  rw [show n.slot i = m.toRaw from node?_eq_some isChild]
  rfl

theorem encased_part {i : Nat} (isPart : (n.tag, i) ∈ surroundingParts)
    (isChild : n.child? i = some m) {rule : Rule} (found : rule? n.tag = some rule) :
    Ensures (rule inner ctx n) (Encased inner ctx m) := by
  simp only [surroundingParts, List.mem_cons, Prod.mk.injEq, List.not_mem_nil, or_false] at isPart
  have isNode := Node.nodeAt_of_child? isChild
  obtain ⟨isTag, rfl⟩ | ⟨isTag, rfl⟩ | ⟨isTag, rfl⟩ | ⟨isTag, rfl⟩ | ⟨isTag, rfl⟩ := isPart
  all_goals
    rw [isTag] at found
    obtain rfl := Option.some.inj found
  · simp only [singletonMethodRule, isNode, ok_bind, ensures_bind, ensures_pure]
    intro receiver isReceiver
    refine .of_forall fun method => .of_forall fun args => .of_forall fun inside => ?_
    exact ⟨receiver, isReceiver, .of_mem (by simp [definition])⟩
  · simp only [classRule, value?_of_child? isChild, ensures_bind, ensures_map, ensures_pure]
    refine .of_forall fun node => .of_forall fun path => ?_
    intro superclass isSuperclass
    refine .of_forall fun inside => ⟨superclass, isSuperclass, .of_mem ?_⟩
    simp [definition, Form.itemOf]
  · simp only [singletonClassRule, isNode, ok_bind, ensures_bind, ensures_pure]
    intro subject isSubject
    exact .of_forall fun inside => ⟨subject, isSubject, .of_mem (by simp [definition])⟩
  · simp only [blockCallRule, isNode, ok_bind, ensures_bind, ensures_pure]
    intro call isCall
    refine .of_forall fun block => .of_forall fun parameters => .of_forall fun inside => ?_
    refine ⟨call, isCall, .of_mem ?_⟩
    cases inside <;> simp [iteration, Form.of, Form.push?, Form.push]
  · simp only [commentRule, isNode, ok_bind, ensures_bind, ensures_pure]
    refine .of_forall fun text => ?_
    intro form isForm
    exact ⟨form, isForm, Form.keptIn_withComments form _⟩

theorem encased_modifier (swap : Bool) (isChild : n.child? 1 = some m) :
    Ensures (modifier swap inner ctx n) (Encased inner ctx m) := by
  simp only [modifier, value?_of_child? isChild, ensures_bind, ensures_map, ensures_pure]
  refine .of_forall fun node => .of_forall fun c => ?_
  intro f isForm
  exact ⟨f, isForm, .of_mem (branch_yes c swap f none)⟩

theorem encased_postfixLoop (isUntil : Bool) (isChild : n.child? 1 = some m) :
    Ensures (postfixLoop isUntil inner ctx n) (Encased inner ctx m) := by
  simp only [postfixLoop, Node.nodeAt_of_child? isChild, ok_bind, ensures_bind, ensures_pure]
  refine .of_forall fun node => .of_forall fun c => ?_
  intro f isForm
  exact ⟨f, isForm, .of_mem (by simp [Form.of])⟩

theorem encased_modifierPart {i : Nat} (isPart : (n.tag, i) ∈ modifierParts)
    (isChild : n.child? i = some m) {rule : Rule} (found : rule? n.tag = some rule) :
    Ensures (rule inner ctx n) (Encased inner ctx m) := by
  simp only [modifierParts, List.mem_cons, Prod.mk.injEq, List.not_mem_nil, or_false] at isPart
  obtain ⟨isTag, rfl⟩ | ⟨isTag, rfl⟩ | ⟨isTag, rfl⟩ | ⟨isTag, rfl⟩ | ⟨isTag, rfl⟩ | ⟨isTag, rfl⟩ |
    ⟨isTag, rfl⟩ | ⟨isTag, rfl⟩ := isPart
  all_goals
    rw [isTag] at found
    obtain rfl := Option.some.inj found
  · exact encased_modifier false isChild
  · exact encased_modifier true isChild
  · simp only [ternary, value?_of_child? isChild, ensures_bind, ensures_map, ensures_pure]
    refine .of_forall fun node => .of_forall fun c => ?_
    intro f isForm
    exact .of_forall fun no => ⟨f, isForm, .of_mem (branch_yes c false f no)⟩
  · simp only [ternary, value?_of_child? isChild, ensures_bind, ensures_map, ensures_pure]
    refine .of_forall fun node => .of_forall fun c => .of_forall fun yes => ?_
    intro f isForm
    exact ⟨f, isForm, .of_mem (branch_no c false yes f)⟩
  · exact encased_postfixLoop false isChild
  · exact encased_postfixLoop true isChild
  · simp only [fallbackRule, Node.nodeAt_of_child? isChild, ok_bind, ensures_bind, ensures_pure]
    intro f isForm
    exact .of_forall fun node => .of_forall fun fallback => ⟨f, isForm, .of_mem (by simp [Form.of])⟩
  · simp only [fallbackRule, Node.nodeAt_of_child? isChild, ok_bind, ensures_bind, ensures_pure]
    refine .of_forall fun node => .of_forall fun expr => ?_
    intro f isForm
    have inClause : f.KeptIn (Form.of "resbody" [(array []).toItem, f.toItem]) :=
      .of_mem (by simp [Form.of])
    refine ⟨f, isForm, (inClause.trans (Form.keptIn_withLine _ expr.line)).trans (.of_mem ?_)⟩
    simp [Form.of]

/-- A node that has the expression of a condition among its items encases the condition. -/
theorem encased_of_condition {k : Condition → Result Form} (flipFlop : Bool)
    (notRange : (conditionNode m).isRange = false)
    (keeps : ∀ c, Ensures (k c) fun f => c.expr.toItem ∈ f.items) :
    Ensures (condition inner ctx flipFlop m >>= k) (Encased inner ctx m) := by
  rw [ensures_bind]
  refine (kept_of_condition flipFlop notRange).mono ?_
  rintro c ⟨f, isForm, kept⟩
  refine (keeps c).mono fun g isItem => ?_
  exact ⟨f, isForm, kept.trans (.of_mem isItem)⟩

theorem encased_condition (isTag : n.tag ∈ conditionTags) (isChild : n.child? 0 = some m)
    (notRange : (conditionNode m).isRange = false) {rule : Rule}
    (found : rule? n.tag = some rule) : Ensures (rule inner ctx n) (Encased inner ctx m) := by
  have isNode := Node.nodeAt_of_child? isChild
  have ofConditional (flipFlop swap : Bool) :
      Ensures (conditional flipFlop swap inner ctx n) (Encased inner ctx m) := by
    rw [conditional, isNode, ok_bind]
    refine encased_of_condition flipFlop notRange fun c => ?_
    simp only [ensures_bind, ensures_pure]
    exact .of_forall fun yes => .of_forall fun no => branch_expr c swap yes no
  have ofModifier (swap : Bool) : Ensures (modifier swap inner ctx n) (Encased inner ctx m) := by
    rw [modifier, isNode, ok_bind]
    refine encased_of_condition true notRange fun c => ?_
    simp only [ensures_bind, ensures_pure]
    exact .of_forall fun statement => branch_expr c swap statement none
  have ofLoop (isUntil : Bool) : Ensures (loop isUntil inner ctx n) (Encased inner ctx m) := by
    rw [loop, isNode, ok_bind]
    refine encased_of_condition true notRange fun c => ?_
    simp only [ensures_bind, ensures_pure]
    exact .of_forall fun inside => by simp [Form.of]
  have ofPostfixLoop (isUntil : Bool) :
      Ensures (postfixLoop isUntil inner ctx n) (Encased inner ctx m) := by
    rw [postfixLoop, isNode, ok_bind]
    refine encased_of_condition true notRange fun c => ?_
    simp only [ensures_bind, ensures_pure]
    exact .of_forall fun statement => .of_forall fun inside => by simp [Form.of]
  have ofTernary : Ensures (ternary inner ctx n) (Encased inner ctx m) := by
    rw [ternary, isNode, ok_bind]
    refine encased_of_condition false notRange fun c => ?_
    simp only [ensures_bind, ensures_pure]
    exact .of_forall fun yes => .of_forall fun no => branch_expr c false yes no
  simp only [conditionTags, List.mem_cons, List.not_mem_nil, or_false] at isTag
  obtain isTag | isTag | isTag | isTag | isTag | isTag | isTag | isTag | isTag | isTag := isTag
  all_goals
    rw [isTag] at found
    obtain rfl := Option.some.inj found
  · exact ofConditional true false
  · exact ofConditional true true
  · exact ofConditional false false
  · exact ofModifier false
  · exact ofModifier true
  · exact ofTernary
  · exact ofLoop false
  · exact ofLoop true
  · exact ofPostfixLoop false
  · exact ofPostfixLoop true

theorem encased_alternative (isTag : n.tag ∈ conditionalTags) (isChild : n.child? 2 = some m)
    (isElsif : m.tag = "elsif") {rule : Rule} (found : rule? n.tag = some rule) :
    Ensures (rule inner ctx n) (Encased inner ctx m) := by
  have same : Rules.otherwise inner ctx (n.slot 2) = (inner ctx m).map some := by
    have isElsif : (m.tag == "elsif") = true := beq_iff_eq.2 isElsif
    rw [show n.slot 2 = m.toRaw from node?_eq_some isChild, Node.toRaw, Rules.otherwise,
      if_pos isElsif]
  have ofConditional (flipFlop swap : Bool) :
      Ensures (conditional flipFlop swap inner ctx n) (Encased inner ctx m) := by
    simp only [conditional, same, ensures_bind, ensures_map, ensures_pure]
    refine .of_forall fun node => .of_forall fun c => .of_forall fun yes => ?_
    intro f isForm
    exact ⟨f, isForm, .of_mem (branch_no c swap yes f)⟩
  simp only [conditionalTags, List.mem_cons, List.not_mem_nil, or_false] at isTag
  obtain isTag | isTag | isTag := isTag
  all_goals
    rw [isTag] at found
    obtain rfl := Option.some.inj found
    exact ofConditional _ _

theorem encased_default {i : Nat} (isPart : (n.tag, i) ∈ parameterParts)
    (isDefault : (n.slot i).Default m) {rule : Rule} (found : rule? n.tag = some rule) :
    Ensures (rule inner ctx n) (Encased inner ctx m) := by
  simp only [parameterParts, List.mem_cons, Prod.mk.injEq, List.not_mem_nil, or_false] at isPart
  obtain ⟨isTag, rfl⟩ | ⟨isTag, rfl⟩ := isPart
  all_goals
    rw [isTag] at found
    obtain rfl := Option.some.inj found
  · simp only [methodRule, ensures_bind, ensures_pure]
    refine .of_forall fun method => (default_of_methodParameters isDefault).mono ?_
    rintro args ⟨f, isForm, kept⟩
    exact .of_forall fun inside => ⟨f, isForm, kept.trans (.of_mem (by simp [definition]))⟩
  · simp only [singletonMethodRule, ensures_bind, ensures_pure]
    refine .of_forall fun m => .of_forall fun receiver => .of_forall fun method => ?_
    refine (default_of_methodParameters isDefault).mono ?_
    rintro args ⟨f, isForm, kept⟩
    exact .of_forall fun inside => ⟨f, isForm, kept.trans (.of_mem (by simp [definition]))⟩

theorem encased_rule (encloses : Encloses ctx n c m) {rule : Rule}
    (found : rule? n.tag = some rule) : Ensures (rule inner ctx n) (Encased inner c m) := by
  cases encloses with
  | statement holds isPart isStatement =>
    refine (keepsBody_rule holds found).mono fun f keeps => ?_
    exact encased_of_keepsBody keeps isPart isStatement
  | part isPart isChild => exact encased_part isPart isChild found
  | modified isPart isChild => exact encased_modifierPart isPart isChild found
  | default isPart isDefault => exact encased_default isPart isDefault found
  | condition isTag isChild notRange => exact encased_condition isTag isChild notRange found
  | alternative isTag isChild isElsif => exact encased_alternative isTag isChild isElsif found

/-- The normal form of an enclosed node is kept in that of the node around it. -/
theorem encased_normalizeNode (encloses : Encloses ctx n c m) :
    Ensures (normalizeNode ctx n) (Encased normalizeNode c m) := by
  refine ensures_normalizeNode fun rule inner found normal => ?_
  refine (encased_rule encloses found).mono ?_
  rintro f ⟨g, isForm, kept⟩
  exact ⟨g, normal c m g isForm, kept.trans (Form.keptIn_settle ctx n f)⟩

end Enclosing

/-- A definition encloses the statements that its body lists, in its own scope. -/
theorem Encloses.of_definition {ctx : Context} {n m : Node} {i : Nat} {b : Bool}
    {children : List Raw} (scope : bodyScope? n.tag i = some b)
    (slot : n.slot i = .node listTag children) (member : m.toRaw ∈ children)
    (present : m.tag ≠ "void_stmt") : Encloses ctx n (ctx.within b) m := by
  refine .statement (.definition scope) (.whole _) ?_
  rw [slot]
  exact .listed (n := ⟨listTag, children⟩) rfl member present

/-! ### Assignments at any depth -/

/-- The second node is enclosed in the first at some depth, and is normalised in the surroundings
before it. -/
inductive Envelops : Context → Node → Context → Node → Prop
  | here (ctx : Context) (n : Node) : Envelops ctx n ctx n
  | inside {ctx c c' : Context} {n m m' : Node} : Encloses ctx n c m → Envelops c m c' m' →
      Envelops ctx n c' m'

/-- The node assigns to the class variable of a token in the given surroundings: on its left
side, if it is an assignment or a loop, or in a rescue clause of a body that it holds. -/
inductive AssignsTo (ctx : Context) (n : Node) : Context → Token → Prop
  | left {t : Token} : t ∈ n.assignedVariables → AssignsTo ctx n ctx t
  | rescued {c : Context} {r : Raw} {b : Node} {t : Token} : HoldsBody ctx n c r →
      BodyPart r b.toRaw → b.tag = "bodystmt" → t ∈ b.rescueVariables → AssignsTo ctx n c t

section Depth

variable {ctx c : Context} {n m : Node} {t : Token} {f : Form}

theorem has_of_keepsBody {inner : Normalizer} {r : Raw} {b : Node}
    (keeps : KeepsBody inner c r f) (isPart : BodyPart r b.toRaw) (isBody : b.tag = "bodystmt")
    (member : t ∈ b.rescueVariables) : f.Has (Form.Assigns c t) := by
  obtain ⟨forms, areForms, kept⟩ := keeps
  obtain ⟨others, areOthers, among⟩ := kept_of_bodyPart isPart forms areForms
  obtain ⟨g, isOther, has⟩ := has_statements isBody member areOthers
  obtain ⟨h, isForm, inside⟩ := among g isOther
  exact kept h isForm c t (inside c t has)

/-- A node has the assignments that it makes by itself. -/
theorem has_of_assignsTo (assigns : AssignsTo ctx n c t) :
    Ensures (normalizeNode ctx n) (Form.Has (Form.Assigns c t)) := by
  cases assigns with
  | left member => exact has_normalizeNode member
  | rescued holds isPart isBody member =>
    refine ensures_normalizeNode fun rule inner found _ => ?_
    refine (keepsBody_rule holds found).mono fun f keeps => ?_
    exact Form.keptIn_settle ctx n f c t (has_of_keepsBody keeps isPart isBody member)

/-- What a node envelops is kept in its normal form. -/
theorem encased_of_envelops (envelops : Envelops ctx n c m) :
    Ensures (normalizeNode ctx n) (Encased normalizeNode c m) := by
  induction envelops with
  | here ctx n =>
    intro f isForm
    exact ⟨f, isForm, .refl f⟩
  | inside encloses _ ih =>
    intro f isForm
    obtain ⟨g, isNormal, kept⟩ := encased_normalizeNode encloses f isForm
    obtain ⟨h, isInner, inside⟩ := ih g isNormal
    exact ⟨h, isInner, inside.trans kept⟩

/-- The body of a program is all that it holds. -/
theorem eq_of_holdsBody {r : Raw} (isProgram : n.tag = "program") (holds : HoldsBody ctx n c r) :
    c = ctx ∧ r = n.slot 0 := by
  cases holds with
  | definition scope => simp [isProgram, bodyScope?] at scope
  | sequence isBody =>
    simp [Node.isStatements, Node.isList, Node.is, isProgram, listTag] at isBody
  | plain isPlace =>
    obtain rfl : _ = 0 := by simpa [isProgram, bodyPlaces] using isPlace
    exact ⟨rfl, rfl⟩
  | otherwise isTag _ => simp [isProgram, conditionalTags] at isTag
  | parentheses isTag _ => simp [isProgram] at isTag
  | block isTag _ => simp [isProgram] at isTag
  | clause isTag _ _ => simp [isProgram] at isTag
  | last isTag _ _ => simp [isProgram] at isTag

/-- A program encloses the statements of its body. -/
theorem statement_of_encloses (isProgram : n.tag = "program") (encloses : Encloses ctx n c m) :
    c = ctx ∧ ∃ part, BodyPart (n.slot 0) part ∧ Statement part m := by
  cases encloses with
  | statement holds isPart isStatement =>
    obtain ⟨rfl, rfl⟩ := eq_of_holdsBody isProgram holds
    exact ⟨rfl, _, isPart, isStatement⟩
  | part isPart _ => simp [isProgram, surroundingParts] at isPart
  | modified isPart _ => simp [isProgram, modifierParts] at isPart
  | default isPart _ => simp [isProgram, parameterParts] at isPart
  | condition isTag _ _ => simp [isProgram, conditionTags] at isTag
  | alternative isTag _ _ => simp [isProgram, conditionalTags] at isTag

theorem keepsBody_program {config : Config} {source : Source} (isProgram : n.tag = "program")
    (succeeds : normalize config source n.toRaw = .ok (some f)) :
    KeepsBody normalizeNode (.ofSource source config) (n.slot 0) f := by
  obtain ⟨inside, isBody, rfl⟩ := normalize_program_eq_ok (beq_iff_eq.2 isProgram) succeeds
  obtain ⟨forms, areForms, wrapped⟩ := map_eq_ok.1 isBody
  refine ⟨forms, areForms, fun g member => ?_⟩
  obtain ⟨h, isWrapped, kept⟩ := (Form.KeptAmong.of_mem member).wrap
  obtain rfl : h = inside := by simpa [wrapped, eq_comm] using isWrapped
  exact kept.trans (Form.keptIn_settleLines h)

/-- The normal form of a tree has the assignments of all nodes that its root envelops. -/
theorem has_normalize {config : Config} {source : Source}
    (succeeds : normalize config source n.toRaw = .ok (some f))
    (envelops : Envelops (.ofSource source config) n c m) {c' : Context}
    (assigns : AssignsTo c m c' t) : f.Has (Form.Assigns c' t) := by
  by_cases isProgram : n.tag = "program"
  · have keeps := keepsBody_program isProgram succeeds
    cases envelops with
    | here =>
      cases assigns with
      | left member => simp [Node.assignedVariables, isProgram] at member
      | rescued holds isPart isBody member =>
        obtain ⟨rfl, rfl⟩ := eq_of_holdsBody isProgram holds
        exact has_of_keepsBody keeps isPart isBody member
    | inside encloses envelops =>
      obtain ⟨rfl, part, isPart, isStatement⟩ := statement_of_encloses isProgram encloses
      obtain ⟨g, isNormal, kept⟩ := encased_of_keepsBody keeps isPart isStatement
      obtain ⟨h, isInner, inside⟩ := encased_of_envelops envelops g isNormal
      exact kept c' t (inside c' t (has_of_assignsTo assigns h isInner))
  · have isNormal : normalizeNode (.ofSource source config) n = .ok f := by
      have notProgram : n.is "program" = false := beq_eq_false_iff_ne.2 isProgram
      rw [Node.toRaw, normalize, normalizeProgram, notProgram, if_neg Bool.false_ne_true]
        at succeeds
      obtain ⟨g, isNormal, same⟩ := bind_eq_ok.1 succeeds
      cases same
      exact isNormal
    obtain ⟨h, isInner, inside⟩ := encased_of_envelops envelops f isNormal
    exact inside c' t (has_of_assignsTo assigns h isInner)

end Depth

end RubyNormalForm
