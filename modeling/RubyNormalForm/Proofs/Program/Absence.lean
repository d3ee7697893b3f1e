import Mathlib
import RubyNormalForm.Proofs.Rules.Absence

/-!
# `nil` and `false` are interchangeable

Every rule of the table makes the same of a node and of its uniform node, so the normaliser
does, and with it the reading of a whole program. Two trees that differ in how they write
absence have one uniform tree, hence one normal form, or both have none.
-/

namespace RubyNormalForm

open Raw

namespace Rules

/-! ### Assignments -/

theorem rightSide_uniform (ofList : List Form → Form) (ofValue : Form → Form) :
    Rule.Uniform (rightSide ofList ofValue) := by
  intro inner each ctx n
  simp only [rightSide, Node.slot_uniform]
  cases n.slot 1 with
  | node tag children =>
    have list := outcome_arguments_uniform each ctx (.node tag children)
    have form := each ctx ⟨tag, children⟩
    simp only [uniform] at list
    simp only [Node.uniform_mk] at form
    simp only [uniform, outcome_ite, outcome_map, list, form]
  | bool b => cases b <;> rfl
  | _ => rfl

theorem assignRule_uniform : Rule.Uniform assignRule := by
  intro inner each ctx n
  have right := rightSide_uniform listValue id inner each ctx n
  simp [assignRule, Option.bind_map, right, outcome_assign_uniform each ctx]

theorem multipleAssignRule_uniform : Rule.Uniform multipleAssignRule := by
  intro inner each ctx n
  have right := rightSide_uniform multipleValue (fun value => .of "to_ary" [value.toItem])
    inner each ctx n
  simp [multipleAssignRule, Option.bind_map, right,
    outcome_leftSide_uniform each ctx]

theorem readTarget_uniform : Rule.Uniform readTarget := by
  intro inner each ctx n
  simp [readTarget, Option.bind_map, outcome_constantPath_uniform each ctx]

theorem operatorAssignRule_uniform : Rule.Uniform operatorAssignRule := by
  intro inner each ctx n
  have read := readTarget_uniform inner each ctx
  simp [operatorAssignRule, elementOperation, attributeOperation, variableOperation,
    Option.bind_map, each ctx, read, outcome_arguments_uniform each ctx,
    outcome_assign_uniform each ctx]

/-! ### Statements, conditions and loops -/

theorem sequenceRule_uniform : Rule.Uniform sequenceRule := by
  intro inner each ctx n
  simp [sequenceRule, outcome_statements_uniform each ctx]

theorem bodyRule_uniform : Rule.Uniform bodyRule := by
  intro inner each ctx n
  simp [bodyRule, outcome_statements_uniform each ctx]

theorem fallbackRule_uniform : Rule.Uniform fallbackRule := by
  intro inner each ctx n
  simp [fallbackRule, Option.bind_map, each ctx]

theorem parenthesesRule_uniform : Rule.Uniform parenthesesRule := by
  intro inner each ctx n
  have whole := bodyRule_uniform inner each ctx n
  simp only [parenthesesRule, Node.slot_uniform]
  cases n.slot 0 with
  | node tag children =>
    have parameters := outcome_methodParameters_uniform each ctx (.node tag children)
    simp only [uniform] at parameters
    simp only [uniform, outcome_ite, parameters, whole]
  | bool b =>
    cases b <;> exact whole
  | _ => exact whole

theorem conditional_uniform (flipFlop swap : Bool) : Rule.Uniform (conditional flipFlop swap) := by
  intro inner each ctx n
  simp [conditional, Option.bind_map, outcome_condition_uniform each ctx,
    outcome_body_uniform each ctx, outcome_otherwise_uniform each ctx]

theorem modifier_uniform (swap : Bool) : Rule.Uniform (modifier swap) := by
  intro inner each ctx n
  simp [modifier, Option.bind_map, outcome_condition_uniform each ctx,
    outcome_value?_uniform each ctx]

theorem ternary_uniform : Rule.Uniform ternary := by
  intro inner each ctx n
  simp [ternary, Option.bind_map, outcome_condition_uniform each ctx,
    outcome_value?_uniform each ctx]

theorem loop_uniform (isUntil : Bool) : Rule.Uniform (loop isUntil) := by
  intro inner each ctx n
  simp [loop, Option.bind_map, outcome_condition_uniform each ctx,
    outcome_body_uniform each ctx]

theorem postfixLoop_uniform (isUntil : Bool) : Rule.Uniform (postfixLoop isUntil) := by
  intro inner each ctx n
  simp [postfixLoop, Option.bind_map, Function.comp_def, each ctx,
    outcome_condition_uniform each ctx]

theorem forLoop_uniform : Rule.Uniform forLoop := by
  intro inner each ctx n
  simp [forLoop, loopVariable, isTargetList, Option.bind_map, each ctx,
    outcome_leftSide_uniform each ctx, outcome_assign_uniform each ctx,
    outcome_body_uniform each ctx]

theorem caseRule_uniform : Rule.Uniform caseRule := by
  intro inner each ctx n
  simp only [caseRule, outcome_bind, Node.slot_uniform, Node.outcome_nodeAt?_uniform,
    outcome_value?_uniform each ctx, Option.bind_map, Function.comp_def]
  congr 1
  funext subject
  congr 1
  funext first?
  cases first? with
  | none => rfl
  | some first =>
    simp only [Option.map_some, whenChain_uniform, outcome_whenClauses_uniform each ctx]
    congr 1
    funext clauses
    cases (whenChain first).2 with
    | none => rfl
    | some clause =>
      simp [outcome_elseBody_uniform each ctx]

/-! ### Tokens, constants and texts -/

theorem constant_uniform (tag : String) : Rule.Uniform (constant tag) :=
  fun _ _ _ _ => rfl

theorem numberRule_uniform (kind : NumberKind) (read : String → Option Item) :
    Rule.Uniform (numberRule kind read) := by
  intro inner each ctx n
  simp [numberRule]

theorem characterRule_uniform : Rule.Uniform characterRule := by
  intro inner each ctx n
  simp [characterRule]

theorem labelRule_uniform : Rule.Uniform labelRule := by
  intro inner each ctx n
  simp [labelRule]

theorem tokenRule_uniform : Rule.Uniform tokenRule := by
  intro inner each ctx n
  simp [tokenRule]

theorem referenceRule_uniform : Rule.Uniform referenceRule := by
  intro inner each ctx n
  simp [referenceRule, Option.bind_map]

theorem constantPath_uniform (top : Bool) : Rule.Uniform (constantPath top) :=
  fun _ each ctx n => outcome_constantPath_uniform each ctx top n

theorem quotedRule_uniform (form : Encoding → List Piece → Form) :
    Rule.Uniform (quotedRule form) := by
  intro inner each ctx n
  simp [quotedRule, Option.bind_map, outcome_pieces_uniform each ctx]

theorem contentRule_uniform : Rule.Uniform contentRule := by
  intro inner each ctx n
  simp [contentRule, uniformAll_eq_map, outcome_pieces_uniform each ctx]

theorem textTokenRule_uniform : Rule.Uniform textTokenRule := by
  intro inner each ctx n
  have whole := outcome_pieces_uniform each ctx [n.toRaw]
  simp only [List.map_cons, List.map_nil] at whole
  simp [textTokenRule, whole]

theorem concatenationRule_uniform : Rule.Uniform concatenationRule := by
  intro inner each ctx n
  simp [concatenationRule, Option.bind_map, each ctx]

theorem symbolRule_uniform : Rule.Uniform symbolRule := by
  intro inner each ctx n
  simp [symbolRule]

theorem regexpRule_uniform : Rule.Uniform regexpRule := by
  intro inner each ctx n
  simp [regexpRule, Option.bind_map, Function.comp_def, outcome_fragments_uniform each ctx]

theorem wordsRule_uniform (form : Encoding → List Piece → Form) :
    Rule.Uniform (wordsRule form) := by
  intro inner each ctx n
  simp [wordsRule, uniformAll_eq_map, outcome_wordForms_uniform each ctx]

/-! ### Collections and operators -/

theorem arrayRule_uniform : Rule.Uniform arrayRule := by
  intro inner each ctx n
  simp only [arrayRule, Node.slot_uniform]
  cases n.slot 0 with
  | node tag children =>
    have list := outcome_arguments_uniform each ctx (.node tag children)
    have form := each ctx ⟨tag, children⟩
    simp only [uniform] at list
    simp only [Node.uniform_mk] at form
    simp only [uniform, outcome_ite, outcome_map, list, form]
  | bool b =>
    have list := outcome_arguments_uniform each ctx (.bool b)
    cases b with
    | false =>
      simp only [uniform] at list
      simp only [uniform, outcome_map, list]
    | true => rfl
  | _ => rfl

theorem hashRule_uniform : Rule.Uniform hashRule := by
  intro inner each ctx n
  simp [hashRule, Option.bind_map, outcome_hashItems_uniform each ctx]

theorem rangeRule_uniform (exclusive : Bool) : Rule.Uniform (rangeRule exclusive) := by
  intro inner each ctx n
  simp [rangeRule, outcome_value?_uniform each ctx]

theorem binaryRule_uniform : Rule.Uniform binaryRule := by
  intro inner each ctx n
  simp [binaryRule, Option.bind_map, Function.comp_def, each ctx]

theorem unaryRule_uniform : Rule.Uniform unaryRule := by
  intro inner each ctx n
  simp [unaryRule, outcome_value?_uniform each ctx]

theorem definedRule_uniform : Rule.Uniform definedRule := by
  intro inner each ctx n
  simp [definedRule, outcome_value?_uniform each ctx]

/-! ### Calls and jumps -/

theorem callRule_uniform : Rule.Uniform callRule := by
  intro inner each ctx n
  simp [callRule, callTag, outcome_value?_uniform each ctx]

theorem bareCallRule_uniform : Rule.Uniform bareCallRule := by
  intro inner each ctx n
  simp [bareCallRule]

theorem commandRule_uniform : Rule.Uniform commandRule := by
  intro inner each ctx n
  have call := bareCallRule_uniform inner each ctx n
  simp [commandRule, call, outcome_arguments_uniform each ctx]

theorem commandCallRule_uniform : Rule.Uniform commandCallRule := by
  intro inner each ctx n
  have call := callRule_uniform inner each ctx n
  simp [commandCallRule, call, outcome_arguments_uniform each ctx]

theorem argumentsRule_uniform : Rule.Uniform argumentsRule := by
  intro inner each ctx n
  simp [argumentsRule, Option.bind_map, each ctx,
    outcome_arguments_uniform each ctx]

theorem elementRule_uniform : Rule.Uniform elementRule := by
  intro inner each ctx n
  simp [elementRule, Option.bind_map, each ctx,
    outcome_arguments_uniform each ctx]

theorem superRule_uniform : Rule.Uniform superRule := by
  intro inner each ctx n
  simp [superRule, outcome_arguments_uniform each ctx]

theorem yieldRule_uniform : Rule.Uniform yieldRule := by
  intro inner each ctx n
  simp [yieldRule, outcome_arguments_uniform each ctx]

theorem jump_uniform (tag : String) : Rule.Uniform (jump tag) := by
  intro inner each ctx n
  simp [jump, outcome_arguments_uniform each ctx]

theorem marked_uniform (tag : String) : Rule.Uniform (marked tag) := by
  intro inner each ctx n
  simp [marked, outcome_value?_uniform each ctx]

theorem blockCallRule_uniform : Rule.Uniform blockCallRule := by
  intro inner each ctx n
  simp [blockCallRule, Option.bind_map, each ctx,
    outcome_blockSlot_uniform each ctx, outcome_body_uniform each ctx]

theorem lambdaRule_uniform : Rule.Uniform lambdaRule := by
  intro inner each ctx n
  simp [lambdaRule, outcome_lambdaSlot_uniform each ctx, outcome_body_uniform each ctx]

theorem hookRule_uniform (tag : String) : Rule.Uniform (hookRule tag) := by
  intro inner each ctx n
  simp [hookRule, outcome_body_uniform each ctx]

/-! ### Definitions -/

section Definitions

variable {inner : Normalizer} (each : inner.Uniform) (ctx : Context)
include each

theorem outcome_methodBody_uniform (child : Raw) :
    outcome (methodBody inner ctx child.uniform) = outcome (methodBody inner ctx child) := by
  simp [methodBody, outcome_statements_uniform each ctx.methodBody]

theorem outcome_scopeBody_uniform (child : Raw) :
    outcome (scopeBody inner ctx child.uniform) = outcome (scopeBody inner ctx child) :=
  outcome_statements_uniform each ctx.scopeBody child

theorem outcome_scopeName_uniform (n : Node) :
    outcome (scopeName inner ctx n.uniform) = outcome (scopeName inner ctx n) := by
  simp [scopeName, each ctx]

end Definitions

theorem methodRule_uniform : Rule.Uniform methodRule := by
  intro inner each ctx n
  simp [methodRule, outcome_methodParameters_uniform each ctx, outcome_methodBody_uniform each ctx]

theorem singletonMethodRule_uniform : Rule.Uniform singletonMethodRule := by
  intro inner each ctx n
  simp [singletonMethodRule, Option.bind_map, each ctx,
    outcome_methodParameters_uniform each ctx, outcome_methodBody_uniform each ctx]

theorem classRule_uniform : Rule.Uniform classRule := by
  intro inner each ctx n
  simp [classRule, Option.bind_map, outcome_scopeName_uniform each ctx,
    outcome_value?_uniform each ctx, outcome_scopeBody_uniform each ctx]

theorem moduleRule_uniform : Rule.Uniform moduleRule := by
  intro inner each ctx n
  simp [moduleRule, Option.bind_map, outcome_scopeName_uniform each ctx,
    outcome_scopeBody_uniform each ctx]

theorem singletonClassRule_uniform : Rule.Uniform singletonClassRule := by
  intro inner each ctx n
  simp [singletonClassRule, Option.bind_map, each ctx,
    outcome_scopeBody_uniform each ctx]

theorem commentRule_uniform : Rule.Uniform commentRule := by
  intro inner each ctx n
  simp [commentRule, Option.bind_map, each ctx]

theorem parametersRule_uniform : Rule.Uniform parametersRule := by
  intro inner each ctx n
  simp [parametersRule, outcome_methodParameters_uniform each ctx]

theorem aliasRule_uniform : Rule.Uniform aliasRule := by
  intro inner each ctx n
  simp [aliasRule, Option.bind_map, each ctx]

theorem variableAliasRule_uniform : Rule.Uniform variableAliasRule := by
  intro inner each ctx n
  simp [variableAliasRule, Option.bind_map]

theorem undefRule_uniform : Rule.Uniform undefRule := by
  intro inner each ctx n
  simp [undefRule, Option.bind_map, outcome_undefs_uniform each ctx]

end Rules

open Rules

theorem rules_uniform : ∀ entry ∈ rules, Rule.Uniform entry.2 := by
  simp only [rules, List.forall_mem_cons, List.not_mem_nil, false_implies, implies_true, and_true]
  -- in the order of the table
  exact ⟨assignRule_uniform,
    operatorAssignRule_uniform,
    multipleAssignRule_uniform,
    sequenceRule_uniform,
    sequenceRule_uniform,
    constant_uniform _,
    parenthesesRule_uniform,
    blockCallRule_uniform,
    lambdaRule_uniform,
    hookRule_uniform _,
    hookRule_uniform _,
    conditional_uniform _ _,
    conditional_uniform _ _,
    conditional_uniform _ _,
    modifier_uniform _,
    modifier_uniform _,
    ternary_uniform,
    caseRule_uniform,
    bodyRule_uniform,
    sequenceRule_uniform,
    fallbackRule_uniform,
    numberRule_uniform _ _,
    numberRule_uniform _ _,
    numberRule_uniform _ _,
    numberRule_uniform _ _,
    characterRule_uniform,
    labelRule_uniform,
    tokenRule_uniform,
    tokenRule_uniform,
    tokenRule_uniform,
    tokenRule_uniform,
    tokenRule_uniform,
    textTokenRule_uniform,
    referenceRule_uniform,
    referenceRule_uniform,
    constantPath_uniform _,
    constantPath_uniform _,
    quotedRule_uniform _,
    contentRule_uniform,
    concatenationRule_uniform,
    quotedRule_uniform _,
    quotedRule_uniform _,
    symbolRule_uniform,
    symbolRule_uniform,
    regexpRule_uniform,
    wordsRule_uniform _,
    wordsRule_uniform _,
    wordsRule_uniform _,
    wordsRule_uniform _,
    arrayRule_uniform,
    hashRule_uniform,
    hashRule_uniform,
    rangeRule_uniform _,
    rangeRule_uniform _,
    loop_uniform _,
    loop_uniform _,
    postfixLoop_uniform _,
    postfixLoop_uniform _,
    forLoop_uniform,
    callRule_uniform,
    bareCallRule_uniform,
    bareCallRule_uniform,
    commandRule_uniform,
    commandCallRule_uniform,
    argumentsRule_uniform,
    elementRule_uniform,
    superRule_uniform,
    constant_uniform _,
    yieldRule_uniform,
    constant_uniform _,
    jump_uniform _,
    constant_uniform _,
    jump_uniform _,
    jump_uniform _,
    constant_uniform _,
    constant_uniform _,
    marked_uniform _,
    marked_uniform _,
    marked_uniform _,
    constant_uniform _,
    methodRule_uniform,
    singletonMethodRule_uniform,
    classRule_uniform,
    moduleRule_uniform,
    singletonClassRule_uniform,
    commentRule_uniform,
    parametersRule_uniform,
    aliasRule_uniform,
    variableAliasRule_uniform,
    undefRule_uniform,
    binaryRule_uniform,
    unaryRule_uniform,
    definedRule_uniform⟩

/-- A node and its uniform node have the same normal form, or neither has one. -/
theorem normalizeNode_uniform : normalizeNode.Uniform := by
  intro ctx n
  induction size : n.size using Nat.strongRecOn generalizing ctx n with
  | ind s ih =>
    subst size
    rw [normalizeNode_eq, normalizeNode_eq, Node.size_uniform]
    simp only [normalizeStep, Node.uniform_tag]
    cases found : rule? n.tag with
    | none => rfl
    | some rule =>
      have lines : settle ctx n.uniform = settle ctx n := by
        funext f
        simp only [settle, Context.lineOf_uniform]
      simp only [outcome_map, lines]
      congr 1
      refine rules_uniform _ (mem_rules found) _ ?_ ctx n
      intro ctx m
      by_cases smaller : m.size < n.size
      · simp only [Node.size_uniform, smaller, if_true]
        exact ih m.size smaller ctx m rfl
      · simp only [Node.size_uniform, smaller, if_false]
        rfl

theorem outcome_normalize_uniform (config : Config) (source : Source) (r : Raw) :
    outcome (normalize config source r.uniform) = outcome (normalize config source r) := by
  cases r with
  | node tag children =>
    have whole := normalizeNode_uniform (.ofSource source config) ⟨tag, children⟩
    have inside := outcome_body_uniform normalizeNode_uniform (.ofSource source config)
      ((Node.mk tag children).slot 0)
    rw [← Node.slot_uniform] at inside
    simp only [Node.uniform_mk] at whole inside
    simp only [uniform, normalize, normalizeProgram]
    by_cases isProgram : tag = "program"
    · subst isProgram
      simp [Node.is, inside]
    · simp [Node.is, isProgram, whole]
  | bool b => cases b <;> rfl
  | _ => rfl

/-- Trees that differ only in which of `nil` and `false` they write where nothing is have the
same normal form, with its lines and comments, or neither has one. -/
theorem normalize_interchanged (config : Config) (source : Source) {r r' : Raw}
    (h : r.Interchanged r') (f : Option Form) :
    normalize config source r = .ok f ↔ normalize config source r' = .ok f := by
  rw [← outcome_eq_some, ← outcome_eq_some, ← outcome_normalize_uniform config source r,
    ← outcome_normalize_uniform config source r', h.uniform_eq]

/-- A method that has no parameters, no statements and no clauses, with the two ways of writing
so exchanged. -/
theorem emptyMethod_interchanged :
    let method : Raw → Raw → Raw := fun none other => .node "def"
      [.node "@ident" [.str "f", .pos 3 4], none,
        .node "bodystmt" [.node Raw.listTag [.node "void_stmt" [none], other], none, other, none]]
    let source : Source := { filename := "a.rb" }
    let f : Form := ⟨"defn", [.sym "f", .node "args" [] none none, .node "nil" [] none none],
      some 3, some ""⟩
    (method .nil (.bool false)).Interchanged (method (.bool false) .nil) ∧
    normalize {} source (method .nil (.bool false)) = .ok (some f) ∧
    normalize {} source (method (.bool false) .nil) = .ok (some f) := by
  intro method source f
  have swapped : (method .nil (.bool false)).Interchanged (method (.bool false) .nil) := by
    have absent {r r' : Raw} : r.isAbsent = true → r'.isAbsent = true → r.Interchanged r' :=
      .absent
    refine .node (.cons (.same _) (.cons (absent rfl rfl) (.cons (.node ?_) .nil)))
    refine .cons (.node ?_)
      (.cons (absent rfl rfl) (.cons (absent rfl rfl) (.cons (absent rfl rfl) .nil)))
    exact .cons (.node (.cons (absent rfl rfl) .nil)) (.cons (absent rfl rfl) .nil)
  have first : normalize {} source (method .nil (.bool false)) = .ok (some f) := by cbv
  exact ⟨swapped, first, (normalize_interchanged {} source swapped (some f)).1 first⟩

end RubyNormalForm
