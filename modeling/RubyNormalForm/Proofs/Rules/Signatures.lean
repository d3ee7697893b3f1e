import RubyNormalForm.Proofs.Rules.Parameters

/-!
# Signatures

A parameter list has seven slots. There is one relation for each kind of slot, with one rule for
each thing that may stand there, and the signature that the list declares is the parameters of all
the slots in order. The items of the normal form are just these parameters as they are written, so
none is lost, repeated or moved. A comma after the last parameter is no parameter, and stands at the
end. A block adds the variables that are local to it.
-/

namespace RubyNormalForm

open Raw Rules

/-! ### What a parameter list declares -/

/-- The nodes of a list that may be missing. -/
inductive Entries : Raw → List Node → Prop
  | absent {child : Raw} (absent : child.isAbsent = true) : Entries child []
  | zero : Entries (.int 0) []
  | list {children : List Raw} {nodes : List Node}
      (each : present children = nodes.map Node.toRaw) : Entries (.node listTag children) nodes

/-- What a slot with a list declares: one thing for each entry, in order. -/
def Each {γ : Type} (declares : Node → γ → Prop) (child : Raw) (declared : List γ) : Prop :=
  ∃ nodes, Entries child nodes ∧ List.Forall₂ declares nodes declared

/-- The slot of the rest parameter. A comma after the last parameter stands there too, and declares
none. -/
inductive RestSlot : Raw → List Parameter → Prop
  | absent {child : Raw} (absent : child.isAbsent = true) : RestSlot child []
  | comma {n : Node} (isComma : n.tag = "excessed_comma") : RestSlot n.toRaw []
  | rest {n : Node} {name : Option String} (isRest : n.tag = "rest_param")
      (named : Named (n.slot 0) name) : RestSlot n.toRaw [.rest name]
  | forward {n : Node} (isForward : n.tag = "args_forward") : RestSlot n.toRaw [.forward]

/-- The slot of the keyword rest parameter. -/
inductive KeywordRestSlot : Raw → List Parameter → Prop
  | absent {child : Raw} (absent : child.isAbsent = true) : KeywordRestSlot child []
  | rest {n : Node} {name : Option String} (isRest : n.tag = "kwrest_param")
      (named : Named (n.slot 0) name) : KeywordRestSlot n.toRaw [.keywordRest name]
  | forward {n : Node} (isForward : n.tag = "args_forward") : KeywordRestSlot n.toRaw [.forward]
  | refused : KeywordRestSlot (.sym "nil") [.noKeywords]

/-- The slot of the block parameter. -/
inductive BlockSlot : Raw → List Parameter → Prop
  | absent {child : Raw} (absent : child.isAbsent = true) : BlockSlot child []
  | block {n : Node} {name : Option String} (named : Named (n.slot 0) name) :
      BlockSlot n.toRaw [.block name]

/-- The parameters of the seven slots, in order. -/
inductive Signature (inner : Normalizer) (ctx : Context) (n : Node) : List Parameter → Prop
  | slots {required optional rest post keywords keywordRest block : List Parameter}
      (isRequired : Each (fun m => Required m.toRaw) (n.slot 0) required)
      (isOptional : Each (OptionalPair inner ctx) (n.slot 1) optional)
      (isRest : RestSlot (n.slot 2) rest)
      (isPost : Each (fun m => Required m.toRaw) (n.slot 3) post)
      (isKeywords : Each (KeywordPair inner ctx) (n.slot 4) keywords)
      (isKeywordRest : KeywordRestSlot (n.slot 5) keywordRest)
      (isBlock : BlockSlot (n.slot 6) block) :
      Signature inner ctx n
        (required ++ optional ++ rest ++ post ++ keywords ++ keywordRest ++ block)

/-- The slots that hold at most one parameter hold one of the things that may stand there. -/
structure WellSlotted (n : Node) : Prop where
  rest : (n.slot 2).isAbsent = true ∨ ∃ m : Node, n.slot 2 = m.toRaw ∧
    (m.tag = "rest_param" ∨ m.tag = "excessed_comma" ∨ m.tag = "args_forward")
  keywordRest : (n.slot 5).isAbsent = true ∨ n.slot 5 = .sym "nil" ∨
    ∃ m : Node, n.slot 5 = m.toRaw ∧ (m.tag = "kwrest_param" ∨ m.tag = "args_forward")
  block : (n.slot 6).isAbsent = true ∨ ∃ m : Node, n.slot 6 = m.toRaw

/-- What is written after the parameters: `nil` for a comma in the slot of the rest parameter. -/
def commaItems (n : Node) : List Item :=
  if (n.child? 2).any (·.is "excessed_comma") then [.nil] else []

/-- The child in any number of parentheses. -/
inductive Parenthesized (child : Raw) : Raw → Prop
  | bare : Parenthesized child child
  | paren {n : Node} (isParen : n.tag = "paren") (inside : Parenthesized child (n.slot 0)) :
      Parenthesized child n.toRaw

/-- The parameter list of a block. -/
def blockList (block : Node) : Raw :=
  if block.tag = "block_var" then block.slot 0 else block.toRaw

/-- The variables that are local to a block, in order. -/
inductive Locals : Node → List String → Prop
  | none {block : Node} (isPlain : block.tag ≠ "block_var") : Locals block []
  | listed {block : Node} {locals : List String} (isBlock : block.tag = "block_var")
      (each : Each (fun m text => tokenText m = .ok text) (block.slot 1) locals) :
      Locals block locals

/-- What is written for the variables that are local to a block: one node, or nothing. -/
def shadowItems (locals : List String) : List Item :=
  if locals = [] then [] else [(Form.of "shadow" (locals.map .sym)).toItem]

/-! ### Slots with a list -/

theorem presentNodes_eq_ok {n : Node} {children : List Raw} {nodes : List Node} :
    n.presentNodes children = .ok nodes ↔ present children = nodes.map Node.toRaw := by
  induction children generalizing nodes with
  | nil => simp [Node.presentNodes, present, eq_comm]
  | cons child rest ih =>
    rw [Node.presentNodes.eq_def]
    dsimp only
    cases absence : child.isAbsent with
    | true =>
      rw [if_pos rfl, present_cons, present_of_isAbsent absence]
      exact ih
    | false =>
      rw [if_neg Bool.false_ne_true, present_cons_of_not_isAbsent absence]
      constructor
      · intro found
        cases child with
        | node tag children =>
          obtain ⟨others, areOthers, made⟩ := bind_eq_ok.1 found
          cases made
          rw [ih.1 areOthers]
          rfl
        | _ => cases found
      · intro same
        obtain ⟨m, others, rfl, rfl, areOthers⟩ := List.map_eq_cons_iff.1 same.symm
        exact bind_eq_ok.2 ⟨others, ih.2 areOthers.symm, rfl⟩

theorem entries_of_listNodes {child : Raw} {nodes : List Node}
    (found : listNodes child = .ok nodes) : Entries child nodes := by
  cases child with
  | node tag children =>
    rw [listNodes] at found
    split at found
    · rename_i isList
      obtain rfl := eq_of_beq isList
      exact .list (presentNodes_eq_ok.1 found)
    · cases found
  | int k =>
    simp only [listNodes, beq_iff_eq] at found
    split at found
    · rename_i isZero
      cases isZero
      cases found
      exact .zero
    · cases found
  | _ =>
    simp only [listNodes] at found
    split at found
    · rename_i absent
      cases found
      exact .absent absent
    · cases found

theorem listNodes_of_entries {child : Raw} {nodes : List Node} (entries : Entries child nodes) :
    listNodes child = .ok nodes := by
  cases entries with
  | absent absent => obtain rfl | rfl := eq_of_isAbsent absent <;> rfl
  | zero => rfl
  | list each => exact presentNodes_eq_ok.2 each

/-- A computation on the nodes of a list writes what the slot of the list declares. -/
theorem writes_listNodes {β γ : Type} {next : List Node → Result (List β)} {write : γ → β}
    {declares : Node → γ → Prop}
    (writes : ∀ nodes, Writes (next nodes) (List.map write) (List.Forall₂ declares nodes))
    (child : Raw) :
    Writes (listNodes child >>= next) (List.map write) (Each declares child) where
  sound := by
    rintro cs ⟨nodes, entries, each⟩
    rw [listNodes_of_entries entries, ok_bind, (writes nodes).sound each]
  complete found := by
    obtain ⟨nodes, areNodes, found⟩ := bind_eq_ok.1 found
    obtain ⟨cs, each⟩ := (writes nodes).complete found
    exact ⟨cs, nodes, entries_of_listNodes areNodes, each⟩

theorem present_toRaw (nodes : List Node) :
    present (nodes.map Node.toRaw) = nodes.map Node.toRaw := by
  rw [present, List.filter_eq_self]
  intro child member
  obtain ⟨n, -, rfl⟩ := List.mem_map.1 member
  rfl

theorem writes_requiredSlot (child : Raw) :
    Writes (requiredSlot child) (List.map Parameter.item)
      (Each (fun m => Required m.toRaw) child) := by
  refine writes_listNodes (fun nodes => ⟨?_, ?_⟩) child
  · intro ps each
    apply requiredParameters_of_required
    rwa [present_toRaw, List.forall₂_map_left_iff]
  · intro items found
    obtain ⟨ps, each⟩ := required_of_requiredParameters _ found
    rw [present_toRaw, List.forall₂_map_left_iff] at each
    exact ⟨ps, each⟩

theorem writes_pairSlot {parameter : Node → Result Item} {declares : Node → Parameter → Prop}
    (writes : ∀ n, Writes (parameter n) Parameter.item (declares n)) (child : Raw) :
    Writes (listNodes child >>= pairParameters parameter) (List.map Parameter.item)
      (Each declares child) :=
  writes_listNodes (writes_all (pairParameters parameter) rfl (fun _ _ => rfl) writes) child

/-! ### Slots with one parameter -/

section Single

variable {n : Node}

/-- A slot in which a sigil stands before the name writes the parameter that is named there. -/
theorem writes_named {sigil : String} {kind : Option String → Parameter}
    (written : ∀ name, (kind name).item = .sym (sigil ++ name.getD "")) (child : Raw) :
    Writes ((sigilParameter sigil child).map ([·])) (List.map Parameter.item)
      (fun ps => ∃ name, Named child name ∧ ps = [kind name]) where
  sound := by
    rintro ps ⟨name, named, rfl⟩
    rw [(writes_sigilParameter sigil child).sound named, List.map_singleton, written]
    rfl
  complete found := by
    obtain ⟨item, isItem, -⟩ := map_eq_ok.1 found
    obtain ⟨name, named⟩ := (writes_sigilParameter sigil child).complete isItem
    exact ⟨[kind name], name, named, rfl⟩

theorem restParameter_of_tag (isRest : n.tag = "rest_param") :
    restParameter n.toRaw = (sigilParameter "*" (n.slot 0)).map ([·]) := by
  obtain ⟨tag, children⟩ := n
  cases isRest
  rfl

theorem keywordRestParameter_of_tag (isRest : n.tag = "kwrest_param") :
    keywordRestParameter n.toRaw = (sigilParameter "**" (n.slot 0)).map ([·]) := by
  obtain ⟨tag, children⟩ := n
  cases isRest
  rfl

theorem writes_restParameter (shape : WellSlotted n) :
    Writes (restParameter (n.slot 2)) (List.map Parameter.item) (RestSlot (n.slot 2)) := by
  have shape := shape.rest
  generalize n.slot 2 = child at shape ⊢
  constructor
  · intro ps slot
    cases slot with
    | absent absent => obtain rfl | rfl := eq_of_isAbsent absent <;> rfl
    | comma isComma =>
      rw [Node.toRaw, isComma]
      rfl
    | rest isRest named =>
      rw [restParameter_of_tag isRest]
      exact (writes_named Parameter.item_rest _).sound ⟨_, named, rfl⟩
    | forward isForward =>
      rw [Node.toRaw, isForward, List.map_singleton, Parameter.item]
      rfl
  · intro items found
    obtain absent | ⟨m, rfl, isRest | isComma | isForward⟩ := shape
    · exact ⟨[], .absent absent⟩
    · rw [restParameter_of_tag isRest] at found
      obtain ⟨_, name, named, rfl⟩ := (writes_named Parameter.item_rest _).complete found
      exact ⟨_, .rest isRest named⟩
    · exact ⟨[], .comma isComma⟩
    · exact ⟨[.forward], .forward isForward⟩

theorem writes_keywordRestParameter (shape : WellSlotted n) :
    Writes (keywordRestParameter (n.slot 5)) (List.map Parameter.item)
      (KeywordRestSlot (n.slot 5)) := by
  have shape := shape.keywordRest
  generalize n.slot 5 = child at shape ⊢
  constructor
  · intro ps slot
    cases slot with
    | absent absent => obtain rfl | rfl := eq_of_isAbsent absent <;> rfl
    | rest isRest named =>
      rw [keywordRestParameter_of_tag isRest]
      exact (writes_named Parameter.item_keywordRest _).sound ⟨_, named, rfl⟩
    | forward isForward =>
      rw [Node.toRaw, isForward, List.map_singleton, Parameter.item]
      rfl
    | refused =>
      rw [List.map_singleton, Parameter.item]
      rfl
  · intro items found
    obtain absent | rfl | ⟨m, rfl, isRest | isForward⟩ := shape
    · exact ⟨[], .absent absent⟩
    · exact ⟨[.noKeywords], .refused⟩
    · rw [keywordRestParameter_of_tag isRest] at found
      obtain ⟨_, name, named, rfl⟩ := (writes_named Parameter.item_keywordRest _).complete found
      exact ⟨_, .rest isRest named⟩
    · exact ⟨[.forward], .forward isForward⟩

theorem writes_blockParameter (shape : WellSlotted n) :
    Writes (blockParameter (n.slot 6)) (List.map Parameter.item) (BlockSlot (n.slot 6)) := by
  have shape := shape.block
  generalize n.slot 6 = child at shape ⊢
  constructor
  · intro ps slot
    cases slot with
    | absent absent => obtain rfl | rfl := eq_of_isAbsent absent <;> rfl
    | block named => exact (writes_named Parameter.item_block _).sound ⟨_, named, rfl⟩
  · intro items found
    obtain absent | ⟨m, rfl⟩ := shape
    · exact ⟨[], .absent absent⟩
    · obtain ⟨_, name, named, rfl⟩ := (writes_named Parameter.item_block _).complete found
      exact ⟨_, .block named⟩

theorem commaItems_eq (shape : WellSlotted n) :
    commaItems n = if isTrailingComma (n.slot 2) then [Item.nil] else [] := by
  have shape := shape.rest
  rw [commaItems, Node.child?]
  generalize n.slot 2 = child at shape ⊢
  obtain absent | ⟨m, rfl, -⟩ := shape
  · obtain rfl | rfl := eq_of_isAbsent absent <;> rfl
  · rfl

/-- Only the comma is written as `nil`. -/
theorem getLast?_eq_nil_iff (n : Node) (ps : List Parameter) :
    (ps.map Parameter.item ++ commaItems n).getLast? = some .nil ↔
      ∃ m : Node, n.slot 2 = m.toRaw ∧ m.tag = "excessed_comma" := by
  rw [commaItems]
  split
  · rename_i isComma
    obtain ⟨m, isChild, isTag⟩ := (Option.any_eq_true _ _).1 isComma
    rw [List.getLast?_concat]
    exact iff_of_true rfl ⟨m, node?_eq_some isChild, eq_of_beq isTag⟩
  · rename_i notComma
    rw [List.append_nil]
    constructor
    · intro isLast
      obtain ⟨p, -, isNil⟩ := List.mem_map.1 (List.mem_of_getLast? isLast)
      exact absurd isNil p.item_ne_nil
    · rintro ⟨m, isNode, isTag⟩
      refine absurd ?_ notComma
      rw [Node.child?, isNode]
      exact beq_iff_eq.2 isTag

end Single

/-! ### The whole list -/

section Whole

variable (inner : Normalizer) (ctx : Context) {n : Node}

theorem parameterItems_eq (n : Node) :
    parameterItems inner ctx n = (do
      let required ← requiredSlot (n.slot 0)
      let optional ← listNodes (n.slot 1) >>= pairParameters (optionalParameter inner ctx)
      let rest ← restParameter (n.slot 2)
      let post ← requiredSlot (n.slot 3)
      let keywords ← listNodes (n.slot 4) >>= pairParameters (keywordParameter inner ctx)
      let keywordRest ← keywordRestParameter (n.slot 5)
      let block ← blockParameter (n.slot 6)
      return required ++ optional ++ rest ++ post ++ keywords ++ keywordRest ++ block ++
        if isTrailingComma (n.slot 2) then [Item.nil] else []) := by
  simp only [parameterItems, bind_assoc]

theorem writes_parameterItems (shape : WellSlotted n) :
    Writes (parameterItems inner ctx n) (fun ps => ps.map Parameter.item ++ commaItems n)
      (Signature inner ctx n) := by
  have writesOptional := writes_pairSlot (writes_optionalParameter inner ctx)
  have writesKeyword := writes_pairSlot (writes_keywordParameter inner ctx)
  constructor
  · intro ps signature
    cases signature with
    | slots isRequired isOptional isRest isPost isKeywords isKeywordRest isBlock =>
      rw [parameterItems_eq, (writes_requiredSlot _).sound isRequired, ok_bind,
        (writesOptional _).sound isOptional, ok_bind, (writes_restParameter shape).sound isRest,
        ok_bind, (writes_requiredSlot _).sound isPost, ok_bind,
        (writesKeyword _).sound isKeywords, ok_bind,
        (writes_keywordRestParameter shape).sound isKeywordRest, ok_bind,
        (writes_blockParameter shape).sound isBlock, ok_bind, commaItems_eq shape]
      simp only [List.map_append]
      rfl
  · intro items found
    rw [parameterItems_eq] at found
    obtain ⟨_, areRequired, found⟩ := bind_eq_ok.1 found
    obtain ⟨_, areOptional, found⟩ := bind_eq_ok.1 found
    obtain ⟨_, areRest, found⟩ := bind_eq_ok.1 found
    obtain ⟨_, arePost, found⟩ := bind_eq_ok.1 found
    obtain ⟨_, areKeywords, found⟩ := bind_eq_ok.1 found
    obtain ⟨_, areKeywordRest, found⟩ := bind_eq_ok.1 found
    obtain ⟨_, areBlock, -⟩ := bind_eq_ok.1 found
    obtain ⟨required, isRequired⟩ := (writes_requiredSlot _).complete areRequired
    obtain ⟨optional, isOptional⟩ := (writesOptional _).complete areOptional
    obtain ⟨rest, isRest⟩ := (writes_restParameter shape).complete areRest
    obtain ⟨post, isPost⟩ := (writes_requiredSlot _).complete arePost
    obtain ⟨keywords, isKeywords⟩ := (writesKeyword _).complete areKeywords
    obtain ⟨keywordRest, isKeywordRest⟩ :=
      (writes_keywordRestParameter shape).complete areKeywordRest
    obtain ⟨block, isBlock⟩ := (writes_blockParameter shape).complete areBlock
    exact ⟨_, .slots isRequired isOptional isRest isPost isKeywords isKeywordRest isBlock⟩

theorem Parenthesized.insideParentheses_eq {child outer : Raw}
    (wrapped : Parenthesized child outer) : insideParentheses outer = insideParentheses child := by
  induction wrapped with
  | bare => rfl
  | @paren m isParen inside ih =>
    rw [Node.toRaw, insideParentheses, if_pos (by rw [isParen]; rfl)]
    exact ih

theorem methodParameters_eq {outer : Raw} (isList : n.tag = "params")
    (wrapped : Parenthesized n.toRaw outer) :
    methodParameters inner ctx outer = (parameterItems inner ctx n).map (Form.of "args") := by
  have inside : insideParentheses outer = n.toRaw := by
    rw [wrapped.insideParentheses_eq, Node.toRaw, insideParentheses, isList]
    rfl
  rw [methodParameters, inside]
  simp only [Node.toRaw, isList]
  rfl

theorem writes_methodParameters {outer : Raw} (isList : n.tag = "params") (shape : WellSlotted n)
    (wrapped : Parenthesized n.toRaw outer) :
    Writes (methodParameters inner ctx outer)
      (fun ps => .of "args" (ps.map Parameter.item ++ commaItems n)) (Signature inner ctx n) := by
  rw [methodParameters_eq inner ctx isList wrapped]
  have writes := writes_parameterItems inner ctx shape
  constructor
  · intro ps signature
    rw [writes.sound signature]
    rfl
  · intro f found
    obtain ⟨items, areItems, -⟩ := map_eq_ok.1 found
    exact writes.complete areItems

theorem writes_symbolItems (nodes : List Node) :
    Writes (symbolItems nodes) (List.map Item.sym)
      (List.Forall₂ (fun m text => tokenText m = .ok text) nodes) := by
  have each (m : Node) :
      Writes ((tokenText m).map Item.sym) Item.sym fun text => tokenText m = .ok text := by
    constructor
    · intro text isToken
      rw [isToken]
      rfl
    · intro item found
      obtain ⟨text, isToken, -⟩ := map_eq_ok.1 found
      exact ⟨text, isToken⟩
  refine writes_all symbolItems rfl ?_ each nodes
  intro m rest
  rw [symbolItems]
  cases tokenText m <;> rfl

theorem blockParameters_eq {block : Node} (isBlock : block.tag = "block_var") :
    blockParameters inner ctx block = (do
      let args ← methodParameters inner ctx (block.slot 0)
      let items ← listNodes (block.slot 1) >>= symbolItems
      return if items.isEmpty then args else args.push (Form.of "shadow" items).toItem) := by
  have isTag : block.is "block_var" = true := beq_iff_eq.2 isBlock
  rw [blockParameters, if_pos isTag]
  refine bind_congr fun args => ?_
  rw [bind_assoc]
  refine bind_congr fun nodes => ?_
  cases nodes with
  | nil => rfl
  | cons m rest =>
    rw [symbolItems]
    cases tokenText m with
    | error e => rfl
    | ok text => cases symbolItems rest <;> rfl

theorem writes_blockParameters {block : Node} {write : List Parameter → List Item}
    {declared : List Parameter → Prop}
    (writes : Writes (methodParameters inner ctx (blockList block))
      (fun ps => .of "args" (write ps)) declared) :
    Writes (blockParameters inner ctx block)
      (fun both : List Parameter × List String => .of "args" (write both.1 ++ shadowItems both.2))
      (fun both => declared both.1 ∧ Locals block both.2) := by
  by_cases isBlock : block.tag = "block_var"
  · rw [blockList, if_pos isBlock] at writes
    have writesLocals := writes_listNodes writes_symbolItems (block.slot 1)
    rw [blockParameters_eq inner ctx isBlock]
    constructor
    · rintro ⟨ps, locals⟩ ⟨isDeclared, isLocals⟩
      cases isLocals with
      | none isPlain => exact absurd isBlock isPlain
      | listed _ each =>
        rw [writes.sound isDeclared, ok_bind, writesLocals.sound each, ok_bind]
        cases locals with
        | nil =>
          rw [shadowItems, if_pos rfl, List.append_nil]
          rfl
        | cons text rest => rfl
    · intro f found
      obtain ⟨args, areArgs, found⟩ := bind_eq_ok.1 found
      obtain ⟨items, areItems, -⟩ := bind_eq_ok.1 found
      obtain ⟨ps, isDeclared⟩ := writes.complete areArgs
      obtain ⟨locals, each⟩ := writesLocals.complete areItems
      exact ⟨(ps, locals), isDeclared, .listed isBlock each⟩
  · rw [blockList, if_neg isBlock] at writes
    have notTag : block.is "block_var" = false := beq_false_of_ne isBlock
    rw [blockParameters, notTag, if_neg Bool.false_ne_true]
    constructor
    · rintro ⟨ps, locals⟩ ⟨isDeclared, isLocals⟩
      cases isLocals with
      | none _ => simp [writes.sound isDeclared, shadowItems]
      | listed isBlock' _ => exact absurd isBlock' isBlock
    · intro f found
      obtain ⟨ps, isDeclared⟩ := writes.complete found
      exact ⟨(ps, []), isDeclared, .none isBlock⟩

/-- A parameter list, bare or in parentheses, is written as the parameters of its seven slots in
order, each in its own way and a group with its parts. It succeeds just if they are declared. What
is written ends in `nil` just if a comma stands in the slot of the rest parameter. A block writes
its local variables after them, in one node and only if it has any. -/
theorem methodParameters_lists_slots {outer : Raw} (isList : n.tag = "params")
    (shape : WellSlotted n) (wrapped : Parenthesized n.toRaw outer) :
    (∀ f, methodParameters inner ctx outer = .ok f ↔
      ∃ ps, Signature inner ctx n ps ∧ f = .of "args" (ps.map Parameter.item ++ commaItems n)) ∧
    (∀ f, methodParameters inner ctx outer = .ok f →
      (f.items.getLast? = some .nil ↔
        ∃ m : Node, n.slot 2 = m.toRaw ∧ m.tag = "excessed_comma")) ∧
    ∀ block f, blockList block = outer →
      (blockParameters inner ctx block = .ok f ↔
        ∃ ps locals, Signature inner ctx n ps ∧ Locals block locals ∧
          f = .of "args" (ps.map Parameter.item ++ commaItems n ++ shadowItems locals)) := by
  have writes := writes_methodParameters inner ctx isList shape wrapped
  refine ⟨fun f => writes.eq_ok_iff, ?_, ?_⟩
  · intro f found
    obtain ⟨ps, -, rfl⟩ := writes.eq_ok_iff.1 found
    exact getLast?_eq_nil_iff n ps
  · rintro block f rfl
    rw [(writes_blockParameters inner ctx writes).eq_ok_iff, Prod.exists]
    simp only [and_assoc]

end Whole

/-- `((a, *b), c = d, *, e, f:, g: h, **nil)`. -/
def exampleSignature : Node :=
  ⟨"params",
    [.node listTag
      [.node "mlhs"
        [.node "@ident" [.str "a", .pos 1 2],
         .node "star" [.node "var_field" [.node "@ident" [.str "b", .pos 1 6]]]]],
     .node listTag [.node listTag [.node "@ident" [.str "c", .pos 1 10], bareCall "d"]],
     .node "rest_param" [.nil],
     .node listTag [.node "@ident" [.str "e", .pos 1 20]],
     .node listTag
      [.node listTag [.node "@label" [.str "f:", .pos 1 23], .bool false],
       .node listTag [.node "@label" [.str "g:", .pos 1 27], bareCall "h"]],
     .sym "nil",
     .nil]⟩

theorem exampleSignature_lists_slots :
    ∃ ps, Signature normalizeNode exampleContext exampleSignature ps ∧
      ∃ f, methodParameters normalizeNode exampleContext
        (.node "paren" [exampleSignature.toRaw]) = .ok f ∧
        f.items = ps.map Parameter.item ∧ f.items.length = 7 := by
  have shape : WellSlotted exampleSignature :=
    ⟨.inr ⟨⟨"rest_param", [.nil]⟩, rfl, .inl rfl⟩, .inr (.inl rfl), .inl rfl⟩
  have wrapped : Parenthesized exampleSignature.toRaw (.node "paren" [exampleSignature.toRaw]) :=
    .paren (n := ⟨"paren", [exampleSignature.toRaw]⟩) rfl .bare
  obtain ⟨lists, -, -⟩ :=
    methodParameters_lists_slots normalizeNode exampleContext rfl shape wrapped
  have found : ∃ f, methodParameters normalizeNode exampleContext
      (.node "paren" [exampleSignature.toRaw]) = .ok f ∧ f.items.length = 7 :=
    ⟨_, by with_unfolding_all rfl, rfl⟩
  obtain ⟨f, found, seven⟩ := found
  obtain ⟨ps, signature, rfl⟩ := (lists f).1 found
  exact ⟨ps, signature, _, found, List.append_nil _, seven⟩

end RubyNormalForm
