import RubyNormalForm.Proofs.Rules.Agreement.Statement

/-!
# Agreement of parameters, definitions and calls

Only the defaults of parameters depend on the surroundings. Names, sigils and nested lists of
names are the same in both runs, and hold neither lines nor strings.
-/

namespace RubyNormalForm.Rules

variable {k : Likeness} {p : Raw → Prop}

/-! ### Names of parameters -/

theorem agree_sigilParameter (k : Likeness) (sigil : String) (child : Raw) :
    Agree (Item.Like k) (sigilParameter sigil child) (sigilParameter sigil child) := by
  fun_induction sigilParameter sigil child with
  | case1 tag isField => exact .ok (by simp)
  | case2 tag isField child rest ih => exact ih
  | case3 tag children notField => exact .bind_same fun name _ => .pure (by simp)
  | case4 other notNode isAbsent => exact .ok (by simp)
  | case5 other notNode present => exact .error _

mutual

theorem agree_requiredParameter (k : Likeness) (child : Raw) :
    Agree (Item.Like k) (requiredParameter child) (requiredParameter child) := by
  cases child with
  | node tag children =>
    have inside := agree_requiredParameters k children
    unfold requiredParameter
    split
    · refine inside.bind fun xs ys same => .pure ?_
      simp [same]
    · split
      · cases children with
        | nil => exact .ok (by simp)
        | cons first rest => exact agree_sigilParameter k "*" first
      · split
        · cases children with
          | nil => exact .error _
          | cons first rest =>
            have taken := agree_requiredParameter k first
            dsimp only
            split
            · exact .error _
            · exact taken
        · exact .bind_same fun name _ => .pure (by simp)
  | _ => exact .error _

theorem agree_requiredParameters (k : Likeness) (children : List Raw) :
    Agree (List.Forall₂ (Item.Like k)) (requiredParameters children)
      (requiredParameters children) := by
  cases children with
  | nil => exact .ok .nil
  | cons child rest =>
    have first := agree_requiredParameter k child
    have others := agree_requiredParameters k rest
    unfold requiredParameters
    split
    · exact others
    · refine first.bind fun x y same => ?_
      exact others.bind fun xs ys more => .pure (.cons same more)

end

theorem agree_requiredSlot (k : Likeness) (child : Raw) :
    Agree (List.Forall₂ (Item.Like k)) (requiredSlot child) (requiredSlot child) :=
  .bind_same fun _ _ => agree_requiredParameters k _

theorem agree_restParameter (k : Likeness) (child : Raw) :
    Agree (List.Forall₂ (Item.Like k)) (restParameter child) (restParameter child) := by
  cases child with
  | node tag children =>
    simp only [restParameter]
    split
    · exact (agree_sigilParameter k "*" _).map fun x y same => .cons same .nil
    · split
      · exact .ok (by simp)
      · exact .ok .nil
  | _ => exact .ok .nil

theorem agree_keywordRestParameter (k : Likeness) (child : Raw) :
    Agree (List.Forall₂ (Item.Like k)) (keywordRestParameter child)
      (keywordRestParameter child) := by
  cases child with
  | node tag children =>
    simp only [keywordRestParameter]
    split
    · exact (agree_sigilParameter k "**" _).map fun x y same => .cons same .nil
    · split
      · exact .ok (by simp)
      · exact .ok .nil
  | sym word =>
    simp only [keywordRestParameter]
    split <;> exact .ok (by simp)
  | _ => exact .ok .nil

theorem agree_blockParameter (k : Likeness) (child : Raw) :
    Agree (List.Forall₂ (Item.Like k)) (blockParameter child) (blockParameter child) := by
  cases child with
  | node tag children =>
    exact (agree_sigilParameter k "&" _).map fun x y same => .cons same .nil
  | _ => exact .ok .nil

theorem agree_symbolItems (k : Likeness) (nodes : List Raw.Node) :
    Agree (List.Forall₂ (Item.Like k)) (symbolItems nodes) (symbolItems nodes) := by
  induction nodes with
  | nil => exact .ok .nil
  | cons n rest ih =>
    refine .bind_same fun text _ => ?_
    exact ih.bind fun xs ys more => .pure (.cons (by simp) more)

/-! ### Parameter lists -/

theorem agree_pairParameters {parameter parameter' : Raw.Node → Result Item}
    {pairs : List Raw.Node}
    (each : ∀ n ∈ pairs, Agree (Item.Like k) (parameter n) (parameter' n)) :
    Agree (List.Forall₂ (Item.Like k)) (pairParameters parameter pairs)
      (pairParameters parameter' pairs) := by
  induction pairs with
  | nil => exact .ok .nil
  | cons pair rest ih =>
    refine (each pair (by simp)).bind fun x y same => ?_
    refine (ih fun n member => each n (by simp [member])).bind fun xs ys more => ?_
    exact .pure (.cons same more)

section Parameters

variable (hp : Raw.Hereditary p) {inner : Normalizer} (each : inner.Respects k p)
variable {ctx ctx' : Context} (alike : Context.Like k p ctx ctx')
include hp each alike

theorem agree_optionalParameter {pair : Raw.Node} (hn : p pair.toRaw) :
    Agree (Item.Like k) (optionalParameter inner ctx pair) (optionalParameter inner ctx' pair) := by
  refine .bind_same fun name _ => ?_
  refine agree_child each alike hp hn fun f g same => .pure ?_
  simp [same]

theorem agree_keywordParameter {pair : Raw.Node} (hn : p pair.toRaw) :
    Agree (Item.Like k) (keywordParameter inner ctx pair) (keywordParameter inner ctx' pair) := by
  refine .bind_same fun name _ => ?_
  refine (agree_value? each alike (hp.slot hn 1)).bind fun f g same => .pure ?_
  exact Form.like_toItem.2 (Form.Like.push? (by simp) same)

theorem agree_parameterItems {n : Raw.Node} (hn : p n.toRaw) :
    Agree (List.Forall₂ (Item.Like k)) (parameterItems inner ctx n)
      (parameterItems inner ctx' n) := by
  refine (agree_requiredSlot k _).bind fun xs ys required => ?_
  refine .bind_same fun optionals found => ?_
  have ho := hp.listNodes (hp.slot hn 1) found
  refine (agree_pairParameters fun m member =>
    agree_optionalParameter hp each alike (ho m member)).bind fun os os' optional => ?_
  refine (agree_restParameter k _).bind fun rs rs' rest => ?_
  refine (agree_requiredSlot k _).bind fun zs zs' post => ?_
  refine .bind_same fun words found' => ?_
  have hw := hp.listNodes (hp.slot hn 4) found'
  refine (agree_pairParameters fun m member =>
    agree_keywordParameter hp each alike (hw m member)).bind fun ks ks' keywords => ?_
  refine (agree_keywordRestParameter k _).bind fun qs qs' keywordRest => ?_
  refine (agree_blockParameter k _).bind fun bs bs' block => .pure ?_
  have comma : List.Forall₂ (Item.Like k)
      (if isTrailingComma (n.slot 2) then [Item.nil] else [])
      (if isTrailingComma (n.slot 2) then [Item.nil] else []) := by
    split <;> simp
  exact List.rel_append (List.rel_append (List.rel_append (List.rel_append (List.rel_append
    (List.rel_append (List.rel_append required optional) rest) post) keywords) keywordRest)
    block) comma

theorem agree_methodParameters {child : Raw} (hc : p child) :
    Agree (Form.Like k) (methodParameters inner ctx child) (methodParameters inner ctx' child) := by
  have inside := hp.insideParentheses hc
  simp only [methodParameters]
  generalize insideParentheses child = list at inside
  cases list with
  | node tag children =>
    dsimp only
    split
    · refine (agree_parameterItems hp each alike (n := ⟨tag, children⟩) inside).map
        fun xs ys same => ?_
      simp [same]
    · exact .error _
  | _ =>
    dsimp only
    split
    · exact .ok (by simp)
    · exact .error _

theorem agree_blockParameters {n : Raw.Node} (hn : p n.toRaw) :
    Agree (Form.Like k) (blockParameters inner ctx n) (blockParameters inner ctx' n) := by
  simp only [blockParameters]
  split
  · refine (agree_methodParameters hp each alike (hp.slot hn 0)).bind fun f g args => ?_
    refine .bind_same fun locals _ => ?_
    split
    · exact .pure args
    · refine (agree_symbolItems k locals).bind fun xs ys same => .pure ?_
      exact args.push (by simp [same])
  · exact agree_methodParameters hp each alike hn

end Parameters

theorem parametersRule_respects (hp : Raw.Hereditary p) : Rule.Respects parametersRule k p := by
  intro inner each ctx ctx' alike n hn
  exact agree_methodParameters hp each alike hn

theorem parenthesesRule_respects (hp : Raw.Hereditary p) :
    Rule.Respects parenthesesRule k p := by
  intro inner each ctx ctx' alike n hn
  have slot := hp.slot hn 0
  have inside := bodyRule_respects hp inner each ctx ctx' alike n hn
  simp only [parenthesesRule]
  generalize n.slot 0 = child at slot
  cases child with
  | node tag children =>
    dsimp only
    split
    · exact agree_methodParameters hp each alike slot
    · exact inside
  | _ => exact inside

/-! ### Definitions -/

theorem like_definition (tag : String) {header header' : List Item} {inside inside' : List Form}
    (headers : List.Forall₂ (Item.Like k) header header')
    (bodies : List.Forall₂ (Form.Like k) inside inside') :
    (definition tag header inside).Like k (definition tag header' inside') :=
  ⟨rfl, List.rel_append headers (Form.like_map_toItem bodies), .none, rfl⟩

section Bodies

variable (hp : Raw.Hereditary p) {inner : Normalizer} (each : inner.Respects k p)
variable {ctx ctx' : Context} (alike : Context.Like k p ctx ctx')
include hp each alike

theorem agree_methodBody {child : Raw} (hc : p child) :
    Agree (List.Forall₂ (Form.Like k)) (methodBody inner ctx child)
      (methodBody inner ctx' child) := by
  refine (agree_statements hp each alike.methodBody hc).bind fun fs gs same => .pure ?_
  cases same with
  | nil => simp
  | cons first others => exact .cons first others

theorem agree_scopeBody {child : Raw} (hc : p child) :
    Agree (List.Forall₂ (Form.Like k)) (scopeBody inner ctx child)
      (scopeBody inner ctx' child) :=
  agree_statements hp each alike.scopeBody hc

omit hp in
theorem agree_scopeName {n : Raw.Node} (hn : p n.toRaw) :
    Agree (Item.Like k) (scopeName inner ctx n) (scopeName inner ctx' n) := by
  simp only [scopeName]
  split
  · exact .bind_same fun name _ => .pure (by simp)
  · split
    · exact .bind_same fun name _ => .pure (by simp)
    · exact (each ctx ctx' alike n hn).bind fun f g same => .pure (by simp [same])

end Bodies

theorem methodRule_respects (hp : Raw.Hereditary p) : Rule.Respects methodRule k p := by
  intro inner each ctx ctx' alike n hn
  refine .bind_same fun method _ => ?_
  refine (agree_methodParameters hp each alike (hp.slot hn 1)).bind fun f g args => ?_
  refine (agree_methodBody hp each alike (hp.slot hn 2)).bind fun fs gs inside => .pure ?_
  exact like_definition "defn" (by simp [args]) inside

theorem singletonMethodRule_respects (hp : Raw.Hereditary p) :
    Rule.Respects singletonMethodRule k p := by
  intro inner each ctx ctx' alike n hn
  refine agree_child each alike hp hn fun r r' receiver => .bind_same fun method _ => ?_
  refine (agree_methodParameters hp each alike (hp.slot hn 3)).bind fun f g args => ?_
  refine (agree_methodBody hp each alike (hp.slot hn 4)).bind fun fs gs inside => .pure ?_
  exact like_definition "defs" (by simp [receiver, args]) inside

theorem classRule_respects (hp : Raw.Hereditary p) : Rule.Respects classRule k p := by
  intro inner each ctx ctx' alike n hn
  refine .bind_same fun m found => ?_
  refine (agree_scopeName each alike (hp.nodeAt hn found)).bind fun x y path => ?_
  refine (agree_value? each alike (hp.slot hn 1)).bind fun f g superclass => ?_
  refine (agree_scopeBody hp each alike (hp.slot hn 2)).bind fun fs gs inside => .pure ?_
  exact like_definition "class" (by simp [path, superclass]) inside

theorem moduleRule_respects (hp : Raw.Hereditary p) : Rule.Respects moduleRule k p := by
  intro inner each ctx ctx' alike n hn
  refine .bind_same fun m found => ?_
  refine (agree_scopeName each alike (hp.nodeAt hn found)).bind fun x y path => ?_
  refine (agree_scopeBody hp each alike (hp.slot hn 1)).bind fun fs gs inside => .pure ?_
  exact like_definition "module" (by simp [path]) inside

theorem singletonClassRule_respects (hp : Raw.Hereditary p) :
    Rule.Respects singletonClassRule k p := by
  intro inner each ctx ctx' alike n hn
  refine agree_child each alike hp hn fun f g subject => ?_
  refine (agree_scopeBody hp each alike (hp.slot hn 1)).bind fun fs gs inside => .pure ?_
  exact like_definition "sclass" (by simp [subject]) inside

theorem commentRule_respects (hp : Raw.Hereditary p) : Rule.Respects commentRule k p := by
  intro inner each ctx ctx' alike n hn
  refine .bind_same fun text _ => ?_
  refine agree_child each alike hp hn fun f g same => .pure ?_
  exact ⟨same.tag, same.items, same.line, rfl⟩

theorem aliasRule_respects (hp : Raw.Hereditary p) : Rule.Respects aliasRule k p := by
  intro inner each ctx ctx' alike n hn
  refine agree_child each alike hp hn fun f g new => ?_
  refine agree_child each alike hp hn fun f' g' old => .pure ?_
  simp [new, old]

theorem variableAliasRule_respects : Rule.Respects variableAliasRule k p := by
  intro inner each ctx ctx' alike n hn
  refine .bind_same fun m _ => .bind_same fun new _ => ?_
  exact .bind_same fun m' _ => .bind_same fun old _ => .pure (by simp)

theorem agree_undefs (hp : Raw.Hereditary p) {inner : Normalizer} (each : inner.Respects k p)
    {ctx ctx' : Context} (alike : Context.Like k p ctx ctx') {nodes : List Raw.Node}
    (hn : ∀ n ∈ nodes, p n.toRaw) :
    Agree (List.Forall₂ (Form.Like k)) (undefs inner ctx nodes) (undefs inner ctx' nodes) := by
  induction nodes with
  | nil => exact .ok .nil
  | cons n rest ih =>
    have first := hn n (by simp)
    refine (each ctx ctx' alike n first).bind fun f g same => ?_
    refine (ih fun m member => hn m (by simp [member])).bind fun fs gs more => .pure ?_
    exact .cons (Form.Like.withLine (by simp [same]) (alike.lineOf hp first)) more

theorem undefRule_respects (hp : Raw.Hereditary p) : Rule.Respects undefRule k p := by
  intro inner each ctx ctx' alike n hn
  refine .bind_same fun nodes found => ?_
  refine (agree_undefs hp each alike (hp.listNodes (hp.slot hn 0) found)).bind fun fs gs same => ?_
  cases same with
  | nil => exact .error _
  | cons first others =>
    cases others with
    | nil => exact .pure first
    | cons second more =>
      exact .pure (Form.like_group "block" (.cons first (.cons second more)))

/-! ### Calls -/

theorem callRule_respects (hp : Raw.Hereditary p) : Rule.Respects callRule k p := by
  intro inner each ctx ctx' alike n hn
  refine (agree_value? each alike (hp.slot hn 0)).bind fun f g receiver => ?_
  refine .bind_same fun method _ => .pure ?_
  simp [receiver]

theorem bareCallRule_respects (hp : Raw.Hereditary p) : Rule.Respects bareCallRule k p := by
  intro inner each ctx ctx' alike n hn
  refine .bind_same fun method _ => .pure ?_
  exact Form.Like.withLine (by simp) (alike.lineOf hp hn)

/-- A rule that adds the arguments in a slot to the form of another. -/
theorem agree_withArguments (hp : Raw.Hereditary p) {inner : Normalizer}
    (each : inner.Respects k p) {ctx ctx' : Context} (alike : Context.Like k p ctx ctx')
    {x y : Result Form} (first : Agree (Form.Like k) x y) {child : Raw} (hc : p child) :
    Agree (Form.Like k) (do let call ← x; return call.pushAll (← arguments inner ctx child))
      (do let call ← y; return call.pushAll (← arguments inner ctx' child)) := by
  refine first.bind fun f g call => ?_
  exact (agree_arguments each alike hp hc).bind fun fs gs args => .pure (call.pushAll args)

theorem commandRule_respects (hp : Raw.Hereditary p) : Rule.Respects commandRule k p := by
  intro inner each ctx ctx' alike n hn
  exact agree_withArguments hp each alike
    (bareCallRule_respects hp inner each ctx ctx' alike n hn) (hp.slot hn 1)

theorem commandCallRule_respects (hp : Raw.Hereditary p) :
    Rule.Respects commandCallRule k p := by
  intro inner each ctx ctx' alike n hn
  exact agree_withArguments hp each alike
    (callRule_respects hp inner each ctx ctx' alike n hn) (hp.slot hn 3)

theorem argumentsRule_respects (hp : Raw.Hereditary p) : Rule.Respects argumentsRule k p := by
  intro inner each ctx ctx' alike n hn
  refine .bind_same fun m found => ?_
  exact agree_withArguments hp each alike (each ctx ctx' alike m (hp.nodeAt hn found))
    (hp.slot hn 1)

theorem elementRule_respects (hp : Raw.Hereditary p) : Rule.Respects elementRule k p := by
  intro inner each ctx ctx' alike n hn
  refine agree_child each alike hp hn fun f g receiver => ?_
  refine (agree_arguments each alike hp (hp.slot hn 1)).bind fun fs gs args => .pure ?_
  exact Form.Like.pushAll (by simp [receiver]) args

theorem superRule_respects (hp : Raw.Hereditary p) : Rule.Respects superRule k p := by
  intro inner each ctx ctx' alike n hn
  refine (agree_arguments each alike hp (hp.slot hn 0)).bind fun fs gs args => .pure ?_
  exact Form.Like.pushAll (by simp) args

theorem yieldRule_respects (hp : Raw.Hereditary p) : Rule.Respects yieldRule k p := by
  intro inner each ctx ctx' alike n hn
  have inside := hp.yieldArguments (hp.slot hn 0)
  refine (agree_arguments each alike hp inside).bind fun fs gs args => .pure ?_
  exact Form.Like.pushAll (by simp) args

/-! ### Blocks -/

theorem like_iteration {call call' : Form} (calls : call.Like k call') {slot slot' : Item}
    (slots : Item.Like k slot slot') {inside inside' : Option Form}
    (bodies : Option.Rel (Form.Like k) inside inside') :
    (iteration call slot inside).Like k (iteration call' slot' inside') :=
  Form.Like.push? (by simp [calls, slots]) bodies

theorem like_parameterSlot {f g : Form} (h : f.Like k g) :
    Item.Like k (parameterSlot f) (parameterSlot g) := by
  simp only [parameterSlot, isEmpty_eq_of_forall₂ h.items]
  split
  · simp
  · simp [h]

section Slots

variable (hp : Raw.Hereditary p) {inner : Normalizer} (each : inner.Respects k p)
variable {ctx ctx' : Context} (alike : Context.Like k p ctx ctx')
include hp each alike

theorem agree_blockSlot {child : Raw} (hc : p child) :
    Agree (Item.Like k) (blockSlot inner ctx child) (blockSlot inner ctx' child) := by
  cases child with
  | node tag children =>
    exact (agree_blockParameters hp each alike (n := ⟨tag, children⟩) hc).map
      fun _ _ => like_parameterSlot
  | _ => exact .ok (by simp [noParameters])

theorem agree_lambdaSlot {child : Raw} (hc : p child) :
    Agree (Item.Like k) (lambdaSlot inner ctx child) (lambdaSlot inner ctx' child) := by
  cases child with
  | node tag children =>
    simp only [lambdaSlot]
    split
    · exact (agree_methodParameters hp each alike hc).map fun _ _ => like_parameterSlot
    · refine (agree_blockParameters hp each alike (n := ⟨tag, children⟩) hc).bind
        fun f g same => .pure ?_
      rw [isEmpty_eq_of_forall₂ same.items]
      split
      · simp [noParameters]
      · simp [same]
  | _ => exact .ok (by simp [noParameters])

end Slots

theorem blockCallRule_respects (hp : Raw.Hereditary p) : Rule.Respects blockCallRule k p := by
  intro inner each ctx ctx' alike n hn
  refine agree_child each alike hp hn fun f g call => .bind_same fun block found => ?_
  have hb := hp.nodeAt hn found
  refine (agree_blockSlot hp each alike (hp.slot hb 0)).bind fun x y slot => ?_
  refine (agree_body hp each alike (hp.slot hb 1)).bind fun b b' inside => .pure ?_
  exact like_iteration call slot inside

theorem lambdaRule_respects (hp : Raw.Hereditary p) : Rule.Respects lambdaRule k p := by
  intro inner each ctx ctx' alike n hn
  refine (agree_lambdaSlot hp each alike (hp.slot hn 0)).bind fun x y slot => ?_
  refine (agree_body hp each alike (hp.slot hn 1)).bind fun b b' inside => .pure ?_
  exact like_iteration (Form.Like.withLine (by simp) (alike.lineOf hp hn)) slot inside

theorem hookRule_respects (hp : Raw.Hereditary p) (tag : String) :
    Rule.Respects (hookRule tag) k p := by
  intro inner each ctx ctx' alike n hn
  refine (agree_body hp each alike (hp.slot hn 0)).bind fun b b' inside => .pure ?_
  exact like_iteration (Form.Like.withLine (by simp) (alike.lineOf hp hn))
    (by simp [noParameters]) inside

end RubyNormalForm.Rules
