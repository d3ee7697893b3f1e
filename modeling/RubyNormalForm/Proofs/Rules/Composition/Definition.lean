import RubyNormalForm.Proofs.Rules.Composition.Statement

/-!
# What parameters, calls and definitions compose

The pairs of a parameter list and the block of a call are opened for their children, which are
expressions. The body of a definition is read in the scope that the definition opens, and
everything else about it in the scope around it.
-/

namespace RubyNormalForm.Rules

open Raw

variable {known : Site → Node → Prop} {ctx : Context} {P : Form → Prop}

/-! ### Parameters -/

theorem all_sigilParameter (sigil : String) (child : Raw) :
    Ensures (sigilParameter sigil child) (Item.All P) := by
  fun_induction sigilParameter sigil child with
  | case1 tag isField => simp
  | case2 tag isField child rest ih => exact ih
  | case3 tag children notField => simp
  | case4 other notNode absent => simp
  | case5 other notNode present => exact ensures_error _

mutual

theorem all_requiredParameter (law : Law known ctx P) (child : Raw) :
    Ensures (requiredParameter child) (Item.All P) := by
  cases child with
  | node tag children =>
    have parts := all_requiredParameters law children
    have text : Ensures (do return Item.sym (← tokenText ⟨tag, children⟩)) (Item.All P) := by
      simp
    cases children with
    | nil =>
      rw [requiredParameter]
      split
      · simp only [ensures_bind, ensures_pure]
        refine parts.mono fun items inside => ?_
        exact (law.all_of (by decide)).2 inside
      split
      · simp
      split
      · exact ensures_error _
      · exact text
    | cons first rest =>
      have inside := all_requiredParameter law first
      rw [requiredParameter]
      split
      · simp only [ensures_bind, ensures_pure]
        refine parts.mono fun items inside => ?_
        exact (law.all_of (by decide)).2 inside
      split
      · exact all_sigilParameter _ _
      split
      · split
        · exact ensures_error _
        · exact inside
      · exact text
  | _ => exact ensures_error _

theorem all_requiredParameters (law : Law known ctx P) (children : List Raw) :
    Ensures (requiredParameters children) (fun items => ∀ x ∈ items, x.All P) := by
  cases children with
  | nil => simp [requiredParameters]
  | cons child rest =>
    have first := all_requiredParameter law child
    have others := all_requiredParameters law rest
    rw [requiredParameters]
    split
    · exact others
    · simp only [ensures_bind, ensures_pure]
      refine first.mono fun item isItem => ?_
      refine others.mono fun items areItems => ?_
      exact List.forall_mem_cons.2 ⟨isItem, areItems⟩

end

section Parameters

variable (law : Law known ctx P)
include law

theorem all_requiredSlot (child : Raw) :
    Ensures (requiredSlot child) (fun items => ∀ x ∈ items, x.All P) := by
  rw [requiredSlot, ensures_bind]
  apply Ensures.of_forall
  intro nodes
  exact all_requiredParameters law _

theorem all_restParameter (child : Raw) :
    Ensures (restParameter child) (fun items => ∀ x ∈ items, x.All P) := by
  rw [restParameter.eq_def]
  split
  · split
    · rw [ensures_map]
      exact (all_sigilParameter _ _).mono fun item isItem => by simpa using isItem
    split
    · simp (disch := decide) [law.all_of]
    · simp
  · simp

theorem all_keywordRestParameter (child : Raw) :
    Ensures (keywordRestParameter child) (fun items => ∀ x ∈ items, x.All P) := by
  rw [keywordRestParameter.eq_def]
  split
  · split
    · rw [ensures_map]
      exact (all_sigilParameter _ _).mono fun item isItem => by simpa using isItem
    split
    · simp (disch := decide) [law.all_of]
    · simp
  · split <;> simp
  · simp

omit law in
theorem all_blockParameter (child : Raw) :
    Ensures (blockParameter child) (fun items => ∀ x ∈ items, x.All P) := by
  rw [blockParameter.eq_def]
  split
  · rw [ensures_map]
    exact (all_sigilParameter _ _).mono fun item isItem => by simpa using isItem
  · simp

omit law in
theorem all_symbolItems (nodes : List Node) :
    Ensures (symbolItems nodes) (fun items => ∀ x ∈ items, x.All P) := by
  induction nodes with
  | nil => simp [symbolItems]
  | cons n rest ih =>
    simp only [symbolItems, ensures_bind, ensures_pure]
    apply Ensures.of_forall
    intro text
    exact ih.mono fun items areItems => List.forall_mem_cons.2 ⟨Item.all_sym text, areItems⟩

omit law in
theorem all_pairParameters {parameter : Node → Result Item} {pairs : List Node}
    (each : ∀ pair ∈ pairs, Ensures (parameter pair) (Item.All P)) :
    Ensures (pairParameters parameter pairs) (fun items => ∀ x ∈ items, x.All P) := by
  induction pairs with
  | nil => simp [pairParameters]
  | cons pair rest ih =>
    rw [List.forall_mem_cons] at each
    simp only [pairParameters, ensures_bind, ensures_pure]
    refine each.1.mono fun item isItem => ?_
    refine (ih each.2).mono fun items areItems => ?_
    exact List.forall_mem_cons.2 ⟨isItem, areItems⟩

omit law in
/-- The pairs of a parameter list are opened for their children. -/
theorem opens_pairs (closed : Closed known) {b : Bool} {n : Node} (h : known (.expression b) n)
    (isList : n.tag = "params") {i : Nat} (isPairs : i = 1 ∨ i = 4) :
    Ensures (listNodes (n.slot i)) (fun pairs => ∀ pair ∈ pairs, Opens known b pair) := by
  apply ensures_listNodes
  intro children isSlot c inList pair isPair j m found
  have list : known ⟨b, .parts, none⟩ ⟨listTag, children⟩ := by
    have below := closed h (show (n.slot i).node? = some _ by rw [isSlot]; rfl)
    obtain rfl | rfl := isPairs <;>
      simpa [Site.below, Site.expression, isList, Role.below, bodyScope?] using below
  obtain ⟨k, rfl⟩ := Node.exists_slot_of_mem (n := ⟨listTag, children⟩) inList
  have part := closed list isPair
  have below := closed part found
  simpa [Site.below, Site.expression, Role.below] using below

variable {inner : Normalizer} {b : Bool} (each : Upholds known ctx P inner b)
include each

theorem all_optionalParameter {pair : Node} (opens : Opens known b pair) :
    Ensures (optionalParameter inner (ctx.within b) pair) (Item.All P) := by
  simp only [optionalParameter, ensures_bind, ensures_pure]
  apply Ensures.of_forall
  intro parameter
  refine (each.nodeAt (opens 1)).mono fun m inside => ?_
  refine inside.mono fun default isDefault => ?_
  simpa (disch := decide) [law.all_of] using isDefault

theorem all_keywordParameter {pair : Node} (opens : Opens known b pair) :
    Ensures (keywordParameter inner (ctx.within b) pair) (Item.All P) := by
  simp only [keywordParameter, ensures_bind, ensures_pure]
  apply Ensures.of_forall
  intro label
  refine (each.value? (opens 1)).mono fun default isDefault => ?_
  simpa (disch := decide) [law.all_push?] using isDefault

theorem all_parameterItems {n : Node} (h : known (.expression b) n) (isList : n.tag = "params") :
    Ensures (parameterItems inner (ctx.within b) n) (fun items => ∀ x ∈ items, x.All P) := by
  simp only [parameterItems, ensures_bind, ensures_pure]
  refine (all_requiredSlot law _).mono fun required areRequired => ?_
  refine (opens_pairs law.closed h isList (.inl rfl)).mono fun pairs opens => ?_
  refine (all_pairParameters fun pair inPairs =>
    all_optionalParameter law each (opens pair inPairs)).mono fun optional areOptional => ?_
  refine (all_restParameter law _).mono fun rest isRest => ?_
  refine (all_requiredSlot law _).mono fun post arePost => ?_
  refine (opens_pairs law.closed h isList (.inr rfl)).mono fun pairs opens => ?_
  refine (all_pairParameters fun pair inPairs =>
    all_keywordParameter law each (opens pair inPairs)).mono fun keywords areKeywords => ?_
  refine (all_keywordRestParameter law _).mono fun keywordRest isKeywordRest => ?_
  refine (all_blockParameter (P := P) _).mono fun block isBlock => ?_
  have comma : ∀ x ∈ (if isTrailingComma (n.slot 2) then [Item.nil] else []), x.All P := by
    split <;> simp
  simp only [List.forall_mem_append]
  exact ⟨⟨⟨⟨⟨⟨⟨areRequired, areOptional⟩, isRest⟩, arePost⟩, areKeywords⟩, isKeywordRest⟩,
    isBlock⟩, comma⟩

/-- A parameter list in which the property holds everywhere. -/
structure ParameterList (P : Form → Prop) (f : Form) : Prop where
  shape : f = Form.of "args" f.items
  inside : ∀ x ∈ f.items, x.All P

omit each in
theorem ParameterList.all {f : Form} (h : ParameterList P f) : f.All P := by
  rw [h.shape]
  exact (law.all_of (by decide)).2 h.inside

theorem all_methodParameters {child : Raw} (reads : Reads known b child) :
    Ensures (methodParameters inner (ctx.within b) child) (ParameterList P) := by
  have inside := law.closed.insideParentheses reads
  simp only [methodParameters]
  split
  · rename_i tag children eq
    rw [eq] at inside
    split
    · rename_i isList
      rw [ensures_map]
      have items := all_parameterItems law each (reads_node.1 inside) (eq_of_beq isList)
      exact items.mono fun items areItems => ⟨rfl, areItems⟩
    · exact ensures_error _
  · split
    · exact (ensures_ok _).2 ⟨rfl, by simp [Form.of]⟩
    · exact ensures_error _

theorem all_blockParameters {n : Node} (h : known (.expression b) n) :
    Ensures (blockParameters inner (ctx.within b) n) (ParameterList P) := by
  rw [blockParameters]
  split
  · rename_i isBlock
    have isBlock : n.tag = "block_var" := eq_of_beq isBlock
    have opens := law.closed.opens rfl h (by rw [isBlock]; decide)
    simp only [ensures_bind]
    refine (all_methodParameters law each (opens 0)).mono fun args isArgs => ?_
    apply Ensures.of_forall
    intro locals
    split
    · exact (ensures_pure _).2 isArgs
    · simp only [ensures_bind, ensures_pure]
      refine (all_symbolItems (P := P) locals).mono fun names areNames => ?_
      have shadow := (law.all_of (show IsFree "shadow" by decide)).2 areNames
      refine ⟨by rw [isArgs.shape]; rfl, ?_⟩
      intro x member
      obtain member | member := List.mem_append.1 member
      · exact isArgs.inside x member
      · obtain rfl := List.mem_singleton.1 member
        exact shadow
  · exact all_methodParameters law each (reads_toRaw.2 h)

theorem all_parametersRule {n : Node} (h : known (.expression b) n) :
    Ensures (parametersRule inner (ctx.within b) n) (Form.All P) :=
  (all_methodParameters law each (reads_toRaw.2 h)).mono fun _ isArgs => isArgs.all law

omit each in
theorem parenthesesRule_composes : Composes known ctx P parenthesesRule := by
  intro inner b each n opens
  have first := opens 0
  rw [parenthesesRule]
  split
  · rename_i tag children eq
    rw [eq] at first
    split
    · exact (all_methodParameters law each first).mono fun _ isArgs => isArgs.all law
    · exact bodyRule_composes law inner b each n opens
  · exact bodyRule_composes law inner b each n opens

end Parameters

/-! ### Calls -/

theorem callTag_cases (operator : Raw) :
    callTag operator = "call" ∨ callTag operator = "safe_call" := by
  rw [callTag]
  split <;> simp

section Calls

variable (law : Law known ctx P)
include law

/-- A call with arguments after those it has. -/
theorem all_callWith {tag : String} (isCall : tag = "call" ∨ tag = "safe_call")
    {receiver : Option Form} (isReceiver : ∀ f ∈ receiver, f.All P) (name : String)
    {line : Option Nat} {args : List Form} (areArgs : ∀ f ∈ args, f.All P) :
    (((Form.of tag [Form.itemOf receiver, .sym name]).withLine line).pushAll args).All P :=
  law.withLine (law.all_call isCall isReceiver name areArgs) line

theorem callRule_composes : Composes known ctx P callRule := by
  intro inner b each n opens
  simp only [callRule, ensures_bind, ensures_pure]
  refine (each.value? (opens 0)).mono fun receiver isReceiver => ?_
  apply Ensures.of_forall
  intro method
  have noArgument : ∀ f ∈ ([] : List Form), f.All P := by simp
  exact law.all_call (callTag_cases _) isReceiver method noArgument

theorem bareCallRule_composes : Composes known ctx P bareCallRule := by
  intro inner b each n opens
  simp only [bareCallRule, ensures_bind, ensures_pure]
  apply Ensures.of_forall
  intro method
  have noReceiver : ∀ f ∈ (none : Option Form), f.All P := by simp
  have noArgument : ∀ f ∈ ([] : List Form), f.All P := by simp
  exact law.withLine (law.all_call (.inl rfl) noReceiver method noArgument) _

theorem commandRule_composes : Composes known ctx P commandRule := by
  intro inner b each n opens
  simp only [commandRule, bareCallRule, ensures_bind, ensures_pure]
  apply Ensures.of_forall
  intro method
  refine (each.arguments law.closed (opens 1)).mono fun args areArgs => ?_
  have noReceiver : ∀ f ∈ (none : Option Form), f.All P := by simp
  exact all_callWith law (.inl rfl) noReceiver method areArgs

theorem commandCallRule_composes : Composes known ctx P commandCallRule := by
  intro inner b each n opens
  simp only [commandCallRule, callRule, ensures_bind, ensures_pure]
  refine (each.value? (opens 0)).mono fun receiver isReceiver => ?_
  apply Ensures.of_forall
  intro method
  refine (each.arguments law.closed (opens 3)).mono fun args areArgs => ?_
  exact law.all_call (callTag_cases _) isReceiver method areArgs

theorem elementRule_composes : Composes known ctx P elementRule := by
  intro inner b each n opens
  simp only [elementRule, ensures_bind, ensures_pure]
  refine (each.nodeAt (opens 0)).mono fun m inside => ?_
  refine inside.mono fun receiver isReceiver => ?_
  refine (each.arguments law.closed (opens 1)).mono fun args areArgs => ?_
  have isReceiver : ∀ f ∈ some receiver, f.All P := by simpa using isReceiver
  exact law.all_call (.inl rfl) isReceiver "[]" areArgs

theorem superRule_composes : Composes known ctx P superRule := by
  intro inner b each n opens
  simp only [superRule, ensures_bind, ensures_pure]
  refine (each.arguments law.closed (opens 0)).mono fun args areArgs => ?_
  exact (law.all_pushAll (by decide)).2 ⟨by simp, areArgs⟩

theorem yieldRule_composes : Composes known ctx P yieldRule := by
  intro inner b each n opens
  simp only [yieldRule, ensures_bind, ensures_pure]
  have reads := law.closed.yieldArguments (opens 0)
  refine (each.arguments law.closed reads).mono fun args areArgs => ?_
  exact (law.all_pushAll (by decide)).2 ⟨by simp, areArgs⟩

/-! ### Blocks -/

/-- What may stand in the parameter slot of a call with a block. -/
structure ParameterSlot (P : Form → Prop) (x : Item) : Prop where
  kind : x.kind = .int 0 ∨ x.kind = .node "args"
  all : x.All P

omit law in
theorem parameterSlot_none : ParameterSlot P noParameters :=
  ⟨.inl rfl, Item.all_int 0⟩

theorem ParameterList.slot {f : Form} (h : ParameterList P f) : ParameterSlot P f.toItem := by
  refine ⟨.inr ?_, h.all law⟩
  rw [Form.kind_toItem, h.shape]
  rfl

theorem ParameterList.parameterSlot {f : Form} (h : ParameterList P f) :
    ParameterSlot P (parameterSlot f) := by
  rw [Rules.parameterSlot]
  split
  · refine ParameterList.slot law ⟨rfl, ?_⟩
    simp [Form.of]
  · exact h.slot law

theorem all_iteration {call : Form} (isCall : call.All P) {parameters : Item}
    (slot : ParameterSlot P parameters) {inside : Option Form} (isBody : ∀ f ∈ inside, f.All P) :
    (iteration call parameters inside).All P := by
  have conforms := Form.conforms_iteration call slot.kind inside
  have unplaced : "iter" ∉ placedTags := by decide
  cases inside with
  | none =>
    refine law.all_fresh rfl unplaced conforms ?_
    simpa [iteration, Form.of, Form.push?] using ⟨isCall, slot.all⟩
  | some f =>
    refine law.all_fresh rfl unplaced conforms ?_
    simpa [iteration, Form.of, Form.push?, Form.push] using ⟨isCall, slot.all, isBody f rfl⟩

theorem all_blockCallRule {inner : Normalizer} {b : Bool} (each : Upholds known ctx P inner b)
    {n : Node} (h : known (.expression b) n) (isTag : n.tag = "method_add_block") :
    Ensures (blockCallRule inner (ctx.within b) n) (Form.All P) := by
  have callee : Reads known b (n.slot 0) := by
    intro m found
    have below := law.closed h found
    simpa [Site.below, Site.expression, isTag, Role.below, bodyScope?] using below
  have block (m : Node) (found : (n.slot 1).node? = some m) : Opens known b m := by
    intro i inside isInside
    have part := law.closed h found
    have below := law.closed part isInside
    simpa [Site.below, Site.expression, isTag, Role.below, bodyScope?] using below
  simp only [blockCallRule, ensures_bind, ensures_pure]
  refine (each.nodeAt callee).mono fun m inside => ?_
  refine inside.mono fun call isCall => ?_
  refine (ensures_nodeAt block).mono fun block opens => ?_
  have parameters : Ensures (blockSlot inner (ctx.within b) (block.slot 0)) (ParameterSlot P) := by
    have reads := opens 0
    rw [blockSlot.eq_def]
    split
    · rename_i eq
      rw [eq] at reads
      rw [ensures_map]
      exact (all_blockParameters law each (reads_node.1 reads)).mono fun _ isArgs =>
        isArgs.parameterSlot law
    · exact (ensures_ok _).2 parameterSlot_none
  refine parameters.mono fun parameters slot => ?_
  refine (all_body law each (opens 1)).mono fun inside isBody => ?_
  exact all_iteration law isCall slot isBody

theorem lambdaRule_composes : Composes known ctx P lambdaRule := by
  intro inner b each n opens
  have parameters : Ensures (lambdaSlot inner (ctx.within b) (n.slot 0)) (ParameterSlot P) := by
    have reads := opens 0
    rw [lambdaSlot.eq_def]
    split
    · rename_i eq
      split
      · rw [ensures_map]
        exact (all_methodParameters law each reads).mono fun _ isArgs => isArgs.parameterSlot law
      · rw [eq] at reads
        simp only [ensures_bind, ensures_pure]
        refine (all_blockParameters law each (reads_node.1 reads)).mono fun args isArgs => ?_
        split
        · exact parameterSlot_none
        · exact isArgs.slot law
    · exact (ensures_ok _).2 parameterSlot_none
  simp only [lambdaRule, ensures_bind, ensures_pure]
  refine parameters.mono fun parameters slot => ?_
  refine (all_body law each (opens 1)).mono fun inside isBody => ?_
  have free : IsFree "lambda" := by decide
  have call := law.withLine (law.all_bare free) ((ctx.within b).lineOf n)
  exact all_iteration law call slot isBody

theorem hookRule_composes {tag : String} (free : IsFree tag) :
    Composes known ctx P (hookRule tag) := by
  intro inner b each n opens
  simp only [hookRule, ensures_bind, ensures_pure]
  refine (all_body law each (opens 0)).mono fun inside isBody => ?_
  have call := law.withLine (law.all_bare free) ((ctx.within b).lineOf n)
  exact all_iteration law call parameterSlot_none isBody

end Calls

/-! ### Definitions -/

/-- A definition with the property everywhere below it. Of the definition itself the law speaks
once it has got its comment. -/
structure Defines (P : Form → Prop) (f : Form) : Prop where
  inside : ∀ x ∈ f.items, x.All P
  comments : f.comments = some ""
  tag : f.tag ∈ definitionTags
  conforms : f.Conforms

/-- The body of a definition is read in its own scope, and the rest of it in the scope around
the definition. -/
theorem reads_definitionSlot (closed : Closed known) {p : Site} {n : Node} (h : known p n)
    (isExpression : p.role = .expression) (isDefinition : n.tag ∈ Raw.definitionTags) (i : Nat) :
    Reads known ((bodyScope? n.tag i).getD p.inMethodBody) (n.slot i) := by
  intro m found
  have below := closed h found
  simp only [Raw.definitionTags, List.mem_cons, List.not_mem_nil, or_false] at isDefinition
  obtain isTag | isTag | isTag | isTag | isTag := isDefinition <;>
    simpa [Site.below, Site.expression, isExpression, isTag, Role.below] using below

section Definitions

variable (law : Law known ctx P) {inner : Normalizer}

theorem defines_definition {tag : String} (isTag : tag ∈ definitionTags) {header : List Item}
    (inHeader : ∀ x ∈ header, x.All P) {body : List Form} (isBody : ∀ f ∈ body, f.All P)
    (conforms : (definition tag header body).Conforms) :
    Defines P (definition tag header body) where
  inside := List.forall_mem_append.2 ⟨inHeader, Form.all_map_toItem.2 isBody⟩
  comments := rfl
  tag := isTag
  conforms := conforms

/-- The schema says nothing of classes and modules. -/
theorem defines_scope {tag : String} (isTag : tag ∈ definitionTags) (free : tag ∉ schemaTags)
    {header : List Item} (inHeader : ∀ x ∈ header, x.All P) {body : List Form}
    (isBody : ∀ f ∈ body, f.All P) : Defines P (definition tag header body) :=
  defines_definition isTag inHeader isBody (.free free)

variable (each : ∀ b, Upholds known ctx P inner b)
include law each

theorem all_methodBody (b : Bool) {child : Raw} (reads : Reads known true child) :
    Ensures (methodBody inner (ctx.within b) child)
      (fun forms => forms ≠ [] ∧ ∀ f ∈ forms, f.All P) := by
  simp only [methodBody, ensures_bind, ensures_pure]
  refine (all_statements law (each true) reads).mono fun inside isBody => ?_
  split
  · exact ⟨by simp, by simpa using law.all_bare (by decide)⟩
  · rename_i present
    exact ⟨by simpa using present, isBody⟩

theorem all_scopeBody (b : Bool) {child : Raw} (reads : Reads known false child) :
    Ensures (scopeBody inner (ctx.within b) child) (fun forms => ∀ f ∈ forms, f.All P) :=
  all_statements law (each false) reads

omit law in
theorem all_scopeName {b : Bool} {n : Node} (h : known (.expression b) n) :
    Ensures (scopeName inner (ctx.within b) n) (Item.All P) := by
  rw [scopeName]
  split
  · simp
  split
  · simp
  · simp only [ensures_bind, ensures_pure]
    exact each b n h

variable {p : Site} {n : Node} (h : known p n) (isExpression : p.role = .expression)
include h isExpression

theorem defines_methodRule (isTag : n.tag = "def") :
    Ensures (methodRule inner (ctx.within p.inMethodBody) n) (Defines P) := by
  have reads := reads_definitionSlot law.closed h isExpression (by rw [isTag]; decide)
  rw [isTag] at reads
  simp only [methodRule, ensures_bind, ensures_pure]
  apply Ensures.of_forall
  intro method
  refine (all_methodParameters law (each _) (reads 1)).mono fun args isArgs => ?_
  refine (all_methodBody law each _ (reads 2)).mono fun inside isBody => ?_
  have header : ∀ x ∈ [Item.sym method, args.toItem], x.All P := by simpa using isArgs.all law
  have isList : args.tag = "args" := by rw [isArgs.shape]; rfl
  exact defines_definition (by decide) header isBody.2
    (Form.conforms_method method isList isBody.1)

theorem defines_singletonMethodRule (isTag : n.tag = "defs") :
    Ensures (singletonMethodRule inner (ctx.within p.inMethodBody) n) (Defines P) := by
  have reads := reads_definitionSlot law.closed h isExpression (by rw [isTag]; decide)
  rw [isTag] at reads
  simp only [singletonMethodRule, ensures_bind, ensures_pure]
  refine ((each _).nodeAt (reads 0)).mono fun m inside => ?_
  refine inside.mono fun receiver isReceiver => ?_
  apply Ensures.of_forall
  intro method
  refine (all_methodParameters law (each _) (reads 3)).mono fun args isArgs => ?_
  refine (all_methodBody law each _ (reads 4)).mono fun inside isBody => ?_
  have header : ∀ x ∈ [receiver.toItem, Item.sym method, args.toItem], x.All P := by
    simpa using ⟨isReceiver, isArgs.all law⟩
  have isList : args.tag = "args" := by rw [isArgs.shape]; rfl
  exact defines_definition (by decide) header isBody.2
    (Form.conforms_singletonMethod receiver method isList isBody.1)

theorem defines_classRule (isTag : n.tag = "class") :
    Ensures (classRule inner (ctx.within p.inMethodBody) n) (Defines P) := by
  have reads := reads_definitionSlot law.closed h isExpression (by rw [isTag]; decide)
  rw [isTag] at reads
  simp only [classRule, ensures_bind, ensures_pure]
  refine (ensures_nodeAt (reads 0)).mono fun m isName => ?_
  refine (all_scopeName each isName).mono fun path isPath => ?_
  refine ((each _).value? (reads 1)).mono fun superclass isSuperclass => ?_
  refine (all_scopeBody law each _ (reads 2)).mono fun inside isBody => ?_
  have header : ∀ x ∈ [path, Form.itemOf superclass], x.All P := by
    simpa using ⟨isPath, isSuperclass⟩
  exact defines_scope (by decide) (by decide) header isBody

theorem defines_moduleRule (isTag : n.tag = "module") :
    Ensures (moduleRule inner (ctx.within p.inMethodBody) n) (Defines P) := by
  have reads := reads_definitionSlot law.closed h isExpression (by rw [isTag]; decide)
  rw [isTag] at reads
  simp only [moduleRule, ensures_bind, ensures_pure]
  refine (ensures_nodeAt (reads 0)).mono fun m isName => ?_
  refine (all_scopeName each isName).mono fun path isPath => ?_
  refine (all_scopeBody law each _ (reads 1)).mono fun inside isBody => ?_
  have header : ∀ x ∈ [path], x.All P := by simpa using isPath
  exact defines_scope (by decide) (by decide) header isBody

theorem defines_singletonClassRule (isTag : n.tag = "sclass") :
    Ensures (singletonClassRule inner (ctx.within p.inMethodBody) n) (Defines P) := by
  have reads := reads_definitionSlot law.closed h isExpression (by rw [isTag]; decide)
  rw [isTag] at reads
  simp only [singletonClassRule, ensures_bind, ensures_pure]
  refine ((each _).nodeAt (reads 0)).mono fun m inside => ?_
  refine inside.mono fun subject isSubject => ?_
  refine (all_scopeBody law each _ (reads 1)).mono fun inside isBody => ?_
  have header : ∀ x ∈ [subject.toItem], x.All P := by simpa using isSubject
  exact defines_scope (by decide) (by decide) header isBody

end Definitions

section Names

variable (law : Law known ctx P)
include law

theorem aliasRule_composes : Composes known ctx P aliasRule := by
  intro inner b each n opens
  simp only [aliasRule, ensures_bind, ensures_pure]
  refine (each.nodeAt (opens 0)).mono fun m inside => ?_
  refine inside.mono fun new isNew => ?_
  refine (each.nodeAt (opens 1)).mono fun m inside => ?_
  refine inside.mono fun old isOld => ?_
  simpa (disch := decide) [law.all_of] using ⟨isNew, isOld⟩

theorem variableAliasRule_composes : Composes known ctx P variableAliasRule := by
  intro inner b each n opens
  simp (disch := decide) [variableAliasRule, law.all_of]

theorem all_undefs {inner : Normalizer} {b : Bool} (each : Upholds known ctx P inner b)
    {nodes : List Node} (h : ∀ n ∈ nodes, known (.expression b) n) :
    Ensures (undefs inner (ctx.within b) nodes) (fun forms => ∀ f ∈ forms, f.All P) := by
  induction nodes with
  | nil => simp [undefs]
  | cons n rest ih =>
    rw [List.forall_mem_cons] at h
    simp only [undefs, ensures_bind, ensures_pure]
    refine (each n h.1).mono fun form isForm => ?_
    refine (ih h.2).mono fun forms areForms => ?_
    have undef := (law.all_of (show IsFree "undef" by decide)).2
      (List.forall_mem_singleton.2 (Form.all_toItem.2 isForm))
    exact List.forall_mem_cons.2 ⟨law.withLine undef _, areForms⟩

theorem undefRule_composes : Composes known ctx P undefRule := by
  intro inner b each n opens
  have nodes :
      Ensures (listNodes (n.slot 0)) (fun nodes => ∀ m ∈ nodes, known (.expression b) m) := by
    apply ensures_listNodes
    intro children isSlot c inList m found
    have reads := opens 0
    rw [isSlot] at reads
    exact (law.closed.opens_node reads (by decide)).children c inList m found
  simp only [undefRule, ensures_bind]
  refine nodes.mono fun nodes areNodes => ?_
  refine (all_undefs law each areNodes).mono fun forms areForms => ?_
  match forms with
  | [] => exact ensures_throw _
  | [one] => simpa using areForms
  | first :: second :: rest =>
    rw [ensures_pure]
    exact all_block law (by simp) areForms

end Names

end RubyNormalForm.Rules
