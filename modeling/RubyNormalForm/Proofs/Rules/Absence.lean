import RubyNormalForm.Proofs.Raw.Absence
import RubyNormalForm.Proofs.Rules.Outcome

/-!
# Absence has one meaning

Where a tree writes `false` for nothing and where it writes `nil`, the rules make the same of
it. They may word a failure differently, for an error shows the value it is about, but they
fail on the same trees and give the same normal forms. Each rule is compared with itself on the
uniform tree, under the assumption that the normaliser it is given does not tell the two apart.
-/

namespace RubyNormalForm

/-- The value of a computation that succeeds. -/
def outcome {α : Type} (x : Result α) : Option α :=
  x.toOption

section Outcome

variable {α β : Type}

@[simp] theorem outcome_ok (a : α) : outcome (.ok a) = some a := rfl

@[simp] theorem outcome_pure (a : α) : outcome (pure a) = some a := rfl

@[simp] theorem outcome_error (e : Error) : outcome (.error e : Result α) = none := rfl

@[simp] theorem outcome_throw (e : Error) : outcome (throw e : Result α) = none := rfl

@[simp]
theorem outcome_bind (x : Result α) (f : α → Result β) :
    outcome (x >>= f) = (outcome x).bind fun a => outcome (f a) := by
  cases x <;> rfl

@[simp]
theorem outcome_map (x : Result α) (f : α → β) : outcome (x.map f) = (outcome x).map f := by
  cases x <;> rfl

@[simp]
theorem outcome_functorMap (x : Result α) (f : α → β) :
    outcome (f <$> x) = (outcome x).map f :=
  outcome_map x f

@[simp]
theorem outcome_ite (c : Prop) [Decidable c] (x y : Result α) :
    outcome (if c then x else y) = if c then outcome x else outcome y :=
  apply_ite outcome c x y

theorem outcome_eq_some {x : Result α} {a : α} : outcome x = some a ↔ x = .ok a := by
  cases x with
  | ok b => simp
  | error e => simp

end Outcome

/-- The normaliser gives a node and its uniform node the same normal form, or neither has one. -/
def Normalizer.Uniform (inner : Normalizer) : Prop :=
  ∀ ctx n, outcome (inner ctx n.uniform) = outcome (inner ctx n)

/-- The rule does so if the normaliser of the smaller nodes does. -/
def Rule.Uniform (rule : Rule) : Prop :=
  ∀ inner : Normalizer, inner.Uniform → (rule inner).Uniform

namespace Raw.Node

/-! ### Children of a node -/

@[simp]
theorem outcome_nodeAt_uniform (n : Node) (i : Nat) :
    outcome (n.uniform.nodeAt i) = (outcome (n.nodeAt i)).map uniform := by
  simp only [nodeAt, slot_uniform]
  cases n.slot i with
  | bool b => cases b <;> rfl
  | _ => rfl

@[simp]
theorem outcome_nodeAt?_uniform (n : Node) (i : Nat) :
    outcome (n.uniform.nodeAt? i) = (outcome (n.nodeAt? i)).map (Option.map uniform) := by
  simp only [nodeAt?, slot_uniform]
  cases n.slot i with
  | bool b => cases b <;> rfl
  | _ => rfl

@[simp]
theorem outcome_stringAt_uniform (n : Node) (i : Nat) :
    outcome (n.uniform.stringAt i) = outcome (n.stringAt i) := by
  simp only [stringAt, slot_uniform]
  cases n.slot i with
  | bool b => cases b <;> rfl
  | _ => rfl

@[simp]
theorem outcome_positionAt_uniform (n : Node) (i : Nat) :
    outcome (n.uniform.positionAt i) = outcome (n.positionAt i) := by
  simp only [positionAt, slot_uniform]
  cases n.slot i with
  | bool b => cases b <;> rfl
  | _ => rfl

theorem outcome_presentNodes_uniform (n : Node) (children : List Raw) :
    outcome (n.uniform.presentNodes (children.map Raw.uniform)) =
      (outcome (n.presentNodes children)).map (List.map uniform) := by
  induction children with
  | nil => rfl
  | cons child rest ih =>
    simp only [List.map_cons, presentNodes, isAbsent_uniform, outcome_ite, ih]
    split
    · rfl
    · cases child with
      | node tag children =>
        simp only [Raw.uniform, outcome_bind, outcome_pure, ih]
        cases outcome (n.presentNodes rest) <;> rfl
      | bool b => cases b <;> rfl
      | _ => rfl

@[simp]
theorem outcome_nodesFrom_uniform (n : Node) (i : Nat) :
    outcome (n.uniform.nodesFrom i) = (outcome (n.nodesFrom i)).map (List.map uniform) := by
  simp only [nodesFrom, uniform_children, uniformAll_eq_map, ← List.map_drop,
    outcome_presentNodes_uniform]

end Raw.Node

namespace Rules

open Raw

@[simp]
theorem outcome_token_uniform (n : Node) : outcome (token n.uniform) = outcome (token n) := by
  simp [token]

@[simp]
theorem outcome_tokenText_uniform (n : Node) :
    outcome (tokenText n.uniform) = outcome (tokenText n) := by
  simp [tokenText]

@[simp]
theorem outcome_name_uniform (r : Raw) : outcome (name r.uniform) = outcome (name r) := by
  cases r with
  | node tag children => exact outcome_tokenText_uniform ⟨tag, children⟩
  | bool b => cases b <;> rfl
  | _ => rfl

@[simp]
theorem outcome_symbolName_uniform (r : Raw) :
    outcome (symbolName r.uniform) = outcome (symbolName r) := by
  cases r with
  | node tag children =>
    have whole := outcome_name_uniform (.node tag children)
    have inside := outcome_name_uniform ((Node.mk tag children).slot 0)
    rw [← Node.slot_uniform] at inside
    simp only [uniform] at whole
    simp only [uniform, symbolName, outcome_ite, whole]
    rw [← inside]
    rfl
  | bool b => cases b <;> rfl
  | _ => rfl

@[simp]
theorem outcome_listNodes_uniform (r : Raw) :
    outcome (listNodes r.uniform) = (outcome (listNodes r)).map (List.map Node.uniform) := by
  cases r with
  | node tag children =>
    have nodes := Node.outcome_nodesFrom_uniform ⟨tag, children⟩ 0
    simp only [Node.uniform_mk] at nodes
    simp only [uniform, listNodes, outcome_ite, nodes]
    split <;> rfl
  | int n =>
    simp only [uniform, listNodes, outcome_ite]
    split <;> rfl
  | bool b => cases b <;> rfl
  | _ => rfl

@[simp]
theorem outcome_contentParts_uniform (r : Raw) :
    outcome (contentParts r.uniform) = (outcome (contentParts r)).map (List.map Raw.uniform) := by
  cases r with
  | node tag children =>
    simp only [uniform, contentParts, outcome_ite, uniformAll_eq_map]
    split
    · rfl
    · simp [uniform, uniformAll_eq_map]
  | bool b => cases b <;> rfl
  | _ => rfl

/-! ### Values, arguments and targets -/

section Values

variable {inner : Normalizer} (each : inner.Uniform) (ctx : Context)
include each

theorem outcome_value?_uniform (child : Raw) :
    outcome (value? inner ctx child.uniform) = outcome (value? inner ctx child) := by
  cases child with
  | node tag children =>
    have form := each ctx ⟨tag, children⟩
    simp only [Node.uniform_mk] at form
    simp only [uniform, value?, outcome_map, form]
  | bool b => cases b <;> rfl
  | _ => rfl

theorem outcome_values_uniform (children : List Raw) :
    outcome (values inner ctx (children.map Raw.uniform)) =
      outcome (values inner ctx children) := by
  induction children with
  | nil => rfl
  | cons child rest ih =>
    simp only [List.map_cons, values, outcome_bind, outcome_pure,
      outcome_value?_uniform each ctx child, ih]

theorem outcome_arguments_uniform (child : Raw) :
    outcome (arguments inner ctx child.uniform) = outcome (arguments inner ctx child) := by
  simp only [arguments, insideParens_uniform]
  cases insideParens child with
  | node tag children =>
    have form := each ctx ⟨tag, children⟩
    simp only [Node.uniform_mk] at form
    simp only [uniform, entries, outcome_ite, outcome_map, form]
    rw [uniformAll_eq_map, outcome_values_uniform each ctx]
  | bool b => cases b <;> rfl
  | _ => rfl

theorem outcome_constantPath_uniform (top : Bool) (n : Node) :
    outcome (constantPath top inner ctx n.uniform) = outcome (constantPath top inner ctx n) := by
  simp [constantPath, Option.bind_map, Function.comp_def, each ctx]

theorem outcome_leafTarget_uniform (n : Node) :
    outcome (leafTarget inner ctx n.uniform) = outcome (leafTarget inner ctx n) := by
  have token : outcome (tokenTarget ctx n.uniform) = outcome (tokenTarget ctx n) := by
    simp [tokenTarget]
  simp [leafTarget, attributeTarget, elementTarget, Option.bind_map, Function.comp_def, each ctx,
    outcome_constantPath_uniform each ctx, outcome_arguments_uniform each ctx, token]

end Values

theorem isNone_node?_uniform (r : Raw) : r.uniform.node?.isNone = r.node?.isNone := by
  rw [node?_uniform, Option.isNone_map]

mutual

theorem outcome_target_uniform {inner : Normalizer} (each : inner.Uniform) (ctx : Context)
    (value : Option Form) (child : Raw) :
    outcome (target inner ctx value child.uniform) = outcome (target inner ctx value child) := by
  cases child with
  | node tag children =>
    have leaf := outcome_leafTarget_uniform each ctx ⟨tag, children⟩
    have inside := outcome_targets_uniform each ctx children
    cases children with
    | nil => rfl
    | cons first rest =>
      have taken := outcome_target_uniform each ctx value first
      have bare := outcome_target_uniform each ctx none first
      simp only [Node.uniform_mk, uniformAll] at leaf inside
      simp only [uniform, uniformAll, target, outcome_ite, outcome_bind, outcome_map,
        isAbsent_uniform, isNone_node?_uniform, leaf, inside, taken, bare, outcome_error,
        outcome_ok, outcome_pure]
  | bool b => cases b <;> rfl
  | _ => rfl

theorem outcome_targets_uniform {inner : Normalizer} (each : inner.Uniform) (ctx : Context)
    (children : List Raw) :
    outcome (targets inner ctx (uniformAll children)) = outcome (targets inner ctx children) := by
  cases children with
  | nil => rfl
  | cons child rest =>
    have first := outcome_target_uniform each ctx none child
    have others := outcome_targets_uniform each ctx rest
    simp only [uniformAll, targets, isAbsent_uniform, outcome_ite, outcome_bind, outcome_pure,
      first, others]

end

/-! ### Statements and bodies -/

section Bodies

variable {inner : Normalizer} (each : inner.Uniform) (ctx : Context)
include each

theorem outcome_assign_uniform (value : Option Form) (n : Node) :
    outcome (assign inner ctx value n.uniform) = outcome (assign inner ctx value n) :=
  outcome_target_uniform each ctx value n.toRaw

theorem outcome_leftSide_uniform (n : Node) :
    outcome (leftSide inner ctx n.uniform) = outcome (leftSide inner ctx n) := by
  simp [leftSide, isTargetList, outcome_targets_uniform each ctx, outcome_assign_uniform each ctx]

theorem outcome_listed_uniform (children : List Raw) :
    outcome (listed inner ctx (uniformAll children)) = outcome (listed inner ctx children) := by
  induction children with
  | nil => rfl
  | cons child rest ih =>
    cases child with
    | node tag inside =>
      have form := each ctx ⟨tag, inside⟩
      simp only [Node.uniform_mk] at form
      simp only [uniformAll, uniform, listed, outcome_ite, outcome_bind, outcome_pure, form, ih]
    | nil => exact ih
    | bool b =>
      cases b with
      | false => exact ih
      | true => rfl
    | _ => rfl

theorem outcome_statementsWith_uniform {body : Node → Result (List Form)}
    (bodies : ∀ n, outcome (body n.uniform) = outcome (body n)) (child : Raw) :
    outcome (statementsWith inner ctx body child.uniform) =
      outcome (statementsWith inner ctx body child) := by
  cases child with
  | node tag children =>
    have form := each ctx ⟨tag, children⟩
    have inside := bodies ⟨tag, children⟩
    have list := outcome_listed_uniform each ctx children
    simp only [Node.uniform_mk] at form inside
    simp only [uniform, statementsWith, outcome_ite, outcome_map, form, inside, list]
    rfl
  | bool b => cases b <;> rfl
  | _ => rfl

theorem outcome_rescueClause_uniform {statements : Raw → Result (List Form)}
    (bodies : ∀ child, outcome (statements child.uniform) = outcome (statements child))
    (n : Node) :
    outcome (rescueClause inner ctx statements n.uniform) =
      outcome (rescueClause inner ctx statements n) := by
  simp only [rescueClause, outcome_bind, Node.outcome_nodeAt?_uniform, Node.slot_uniform,
    outcome_arguments_uniform each ctx, Context.lineOf_uniform, Option.bind_map, Function.comp_def]
  congr 1
  funext bound
  cases bound with
  | none => simp only [Option.map_none, outcome_bind, bodies]
  | some v =>
    simp only [Option.map_some, outcome_bind, outcome_map, outcome_assign_uniform each ctx, bodies]

theorem outcome_rescueClauses_uniform {statements : Raw → Result (List Form)}
    (bodies : ∀ child, outcome (statements child.uniform) = outcome (statements child))
    (clauses : List Node) :
    outcome (rescueClauses inner ctx statements (clauses.map Node.uniform)) =
      outcome (rescueClauses inner ctx statements clauses) := by
  induction clauses with
  | nil => rfl
  | cons n rest ih =>
    simp only [List.map_cons, rescueClauses, outcome_bind, outcome_pure, ih,
      outcome_rescueClause_uniform each ctx bodies n]

theorem outcome_bodyStep_uniform {body : Node → Result (List Form)}
    (bodies : ∀ n, outcome (body n.uniform) = outcome (body n)) (n : Node) :
    outcome (bodyStep inner ctx body n.uniform) = outcome (bodyStep inner ctx body n) := by
  have inside := outcome_statementsWith_uniform each ctx bodies
  simp only [bodyStep, outcome_bind, Node.outcome_nodeAt?_uniform, Node.slot_uniform, inside,
    insideElse_uniform, Option.bind_map, Function.comp_def]
  -- both nodes have the same clauses, so what is left to compare are the clauses one by one
  congr 1
  funext main
  congr 1
  funext rescue?
  congr 1
  funext ensure?
  congr 1
  funext otherwise
  cases rescue? with
  | none =>
    cases ensure? with
    | none => rfl
    | some clause => simp [inside]
  | some first =>
    have clauses := outcome_rescueClauses_uniform each ctx inside (rescueChain first)
    cases ensure? with
    | none => simp [clauses]
    | some clause => simp [clauses, inside]

theorem outcome_bodyStatements_uniform (n : Node) :
    outcome (bodyStatements inner ctx n.uniform) = outcome (bodyStatements inner ctx n) := by
  induction size : n.size using Nat.strongRecOn generalizing n with
  | ind s ih =>
    subst size
    simp only [bodyStatements] at ih ⊢
    rw [Node.bySize_eq, Node.bySize_eq]
    rw [Node.size_uniform]
    refine outcome_bodyStep_uniform each ctx ?_ n
    intro m
    rw [Node.size_uniform]
    by_cases smaller : m.size < n.size
    · simp only [smaller, if_true]
      exact ih m.size smaller m rfl
    · simp only [smaller, if_false]
      rfl

theorem outcome_statements_uniform (child : Raw) :
    outcome (statements inner ctx child.uniform) = outcome (statements inner ctx child) :=
  outcome_statementsWith_uniform each ctx (outcome_bodyStatements_uniform each ctx) child

theorem outcome_body_uniform (child : Raw) :
    outcome (body inner ctx child.uniform) = outcome (body inner ctx child) := by
  simp only [body, outcome_map, outcome_statements_uniform each ctx]

theorem outcome_elseBody_uniform (child : Raw) :
    outcome (elseBody inner ctx child.uniform) = outcome (elseBody inner ctx child) := by
  simp only [elseBody, insideElse_uniform, outcome_body_uniform each ctx]

/-! ### Conditions and clauses of a `case` -/

theorem outcome_condition_uniform (flipFlop : Bool) (n : Node) :
    outcome (condition inner ctx flipFlop n.uniform) =
      outcome (condition inner ctx flipFlop n) := by
  simp [condition, conditionForm, each ctx, outcome_value?_uniform each ctx]

theorem outcome_otherwise_uniform (child : Raw) :
    outcome (otherwise inner ctx child.uniform) = outcome (otherwise inner ctx child) := by
  have ending := outcome_elseBody_uniform each ctx child
  cases child with
  | node tag children =>
    have form := each ctx ⟨tag, children⟩
    simp only [Node.uniform_mk] at form
    simp only [uniform] at ending
    simp only [uniform, otherwise, outcome_ite, outcome_map, form, ending]
  | bool b =>
    cases b with
    | false => exact ending
    | true => rfl
  | _ => rfl

theorem outcome_whenClauses_uniform (clauses : List Node) :
    outcome (whenClauses inner ctx (clauses.map Node.uniform)) =
      outcome (whenClauses inner ctx clauses) := by
  have clause (n : Node) :
      outcome (whenClause inner ctx n.uniform) = outcome (whenClause inner ctx n) := by
    simp [whenClause, Function.comp_def, outcome_arguments_uniform each ctx,
      outcome_statements_uniform each ctx]
  induction clauses with
  | nil => rfl
  | cons n rest ih =>
    simp only [List.map_cons, whenClauses, outcome_bind, outcome_pure, ih, clause]

end Bodies

/-! ### Parameters -/

theorem outcome_sigilParameter_uniform (sigil : String) (child : Raw) :
    outcome (sigilParameter sigil child.uniform) = outcome (sigilParameter sigil child) := by
  cases child with
  | node tag children =>
    have text := outcome_tokenText_uniform ⟨tag, children⟩
    simp only [Node.uniform_mk] at text
    cases children with
    | nil => rfl
    | cons first rest =>
      have inside := outcome_sigilParameter_uniform sigil first
      simp only [uniformAll] at text
      simp only [uniform, uniformAll, sigilParameter, outcome_ite, outcome_bind, outcome_pure,
        text, inside]
  | bool b => cases b <;> rfl
  | _ => rfl

mutual

theorem outcome_requiredParameter_uniform (child : Raw) :
    outcome (requiredParameter child.uniform) = outcome (requiredParameter child) := by
  cases child with
  | node tag children =>
    have text := outcome_tokenText_uniform ⟨tag, children⟩
    have parts := outcome_requiredParameters_uniform children
    cases children with
    | nil => rfl
    | cons first rest =>
      have inside := outcome_requiredParameter_uniform first
      simp only [Node.uniform_mk, uniformAll] at text parts
      simp only [uniform, uniformAll, requiredParameter, outcome_ite, outcome_bind, outcome_pure,
        outcome_error, isNone_node?_uniform, outcome_sigilParameter_uniform, text, parts, inside]
  | bool b => cases b <;> rfl
  | _ => rfl

theorem outcome_requiredParameters_uniform (children : List Raw) :
    outcome (requiredParameters (uniformAll children)) =
      outcome (requiredParameters children) := by
  cases children with
  | nil => rfl
  | cons child rest =>
    have first := outcome_requiredParameter_uniform child
    have others := outcome_requiredParameters_uniform rest
    simp only [uniformAll, requiredParameters, isAbsent_uniform, outcome_ite, outcome_bind,
      outcome_pure, first, others]

end

theorem outcome_requiredSlot_uniform (child : Raw) :
    outcome (requiredSlot child.uniform) = outcome (requiredSlot child) := by
  have parts (nodes : List Node) :
      outcome (requiredParameters ((nodes.map Node.uniform).map Node.toRaw)) =
        outcome (requiredParameters (nodes.map Node.toRaw)) := by
    rw [← outcome_requiredParameters_uniform (nodes.map Node.toRaw), uniformAll_eq_map,
      List.map_map, List.map_map]
    rfl
  simp only [requiredSlot, outcome_bind, outcome_listNodes_uniform, Option.bind_map,
    Function.comp_def, parts]

theorem outcome_restParameter_uniform (child : Raw) :
    outcome (restParameter child.uniform) = outcome (restParameter child) := by
  cases child with
  | node tag children =>
    simp only [uniform, restParameter, ← Node.uniform_mk, Node.slot_uniform, outcome_ite,
      outcome_map, outcome_sigilParameter_uniform]
  | bool b => cases b <;> rfl
  | _ => rfl

theorem outcome_keywordRestParameter_uniform (child : Raw) :
    outcome (keywordRestParameter child.uniform) = outcome (keywordRestParameter child) := by
  cases child with
  | node tag children =>
    simp only [uniform, keywordRestParameter, ← Node.uniform_mk, Node.slot_uniform, outcome_ite,
      outcome_map, outcome_sigilParameter_uniform]
  | bool b => cases b <;> rfl
  | _ => rfl

theorem outcome_blockParameter_uniform (child : Raw) :
    outcome (blockParameter child.uniform) = outcome (blockParameter child) := by
  cases child with
  | node tag children =>
    simp only [uniform, blockParameter, ← Node.uniform_mk, Node.slot_uniform, outcome_map,
      outcome_sigilParameter_uniform]
  | bool b => cases b <;> rfl
  | _ => rfl

theorem outcome_symbolItems_uniform (nodes : List Node) :
    outcome (symbolItems (nodes.map Node.uniform)) = outcome (symbolItems nodes) := by
  induction nodes with
  | nil => rfl
  | cons n rest ih =>
    simp only [List.map_cons, symbolItems, outcome_bind, outcome_pure, outcome_tokenText_uniform,
      ih]

theorem outcome_pairParameters_uniform {parameter : Node → Result Item}
    (pairs : ∀ pair, outcome (parameter pair.uniform) = outcome (parameter pair))
    (nodes : List Node) :
    outcome (pairParameters parameter (nodes.map Node.uniform)) =
      outcome (pairParameters parameter nodes) := by
  induction nodes with
  | nil => rfl
  | cons pair rest ih =>
    simp only [List.map_cons, pairParameters, outcome_bind, outcome_pure, pairs, ih]

section Parameters

variable {inner : Normalizer} (each : inner.Uniform) (ctx : Context)
include each

theorem outcome_parameterItems_uniform (n : Node) :
    outcome (parameterItems inner ctx n.uniform) = outcome (parameterItems inner ctx n) := by
  have optional (pair : Node) :
      outcome (optionalParameter inner ctx pair.uniform) =
        outcome (optionalParameter inner ctx pair) := by
    simp [optionalParameter, Option.bind_map, Function.comp_def, each ctx]
  have keyword (pair : Node) :
      outcome (keywordParameter inner ctx pair.uniform) =
        outcome (keywordParameter inner ctx pair) := by
    simp [keywordParameter, outcome_value?_uniform each ctx]
  simp only [parameterItems, outcome_bind, outcome_pure, Node.slot_uniform,
    outcome_listNodes_uniform, outcome_requiredSlot_uniform, outcome_restParameter_uniform,
    outcome_keywordRestParameter_uniform, outcome_blockParameter_uniform, isTrailingComma_uniform,
    Option.bind_map, Function.comp_def, outcome_pairParameters_uniform optional,
    outcome_pairParameters_uniform keyword]

theorem outcome_methodParameters_uniform (child : Raw) :
    outcome (methodParameters inner ctx child.uniform) =
      outcome (methodParameters inner ctx child) := by
  simp only [methodParameters, insideParentheses_uniform]
  cases insideParentheses child with
  | node tag children =>
    have items := outcome_parameterItems_uniform each ctx ⟨tag, children⟩
    simp only [Node.uniform_mk] at items
    simp only [uniform, outcome_ite, outcome_map, outcome_error, items]
  | bool b => cases b <;> rfl
  | _ => rfl

theorem outcome_blockParameters_uniform (n : Node) :
    outcome (blockParameters inner ctx n.uniform) = outcome (blockParameters inner ctx n) := by
  simp [blockParameters, Option.bind_map, Function.comp_def, outcome_symbolItems_uniform,
    outcome_methodParameters_uniform each ctx]

theorem outcome_blockSlot_uniform (child : Raw) :
    outcome (blockSlot inner ctx child.uniform) = outcome (blockSlot inner ctx child) := by
  cases child with
  | node tag children =>
    have parameters := outcome_blockParameters_uniform each ctx ⟨tag, children⟩
    simp only [Node.uniform_mk] at parameters
    simp only [uniform, blockSlot, outcome_map, parameters]
  | bool b => cases b <;> rfl
  | _ => rfl

theorem outcome_lambdaSlot_uniform (child : Raw) :
    outcome (lambdaSlot inner ctx child.uniform) = outcome (lambdaSlot inner ctx child) := by
  have list := outcome_methodParameters_uniform each ctx child
  cases child with
  | node tag children =>
    have parameters := outcome_blockParameters_uniform each ctx ⟨tag, children⟩
    simp only [Node.uniform_mk] at parameters
    simp only [uniform] at list
    simp only [uniform, lambdaSlot, outcome_ite, outcome_map, outcome_bind, outcome_pure, list,
      parameters]
  | bool b => cases b <;> rfl
  | _ => rfl

/-! ### Texts and entries -/

theorem outcome_fragmentsOf_uniform (n : Node) :
    outcome (fragmentsOf inner ctx n.uniform) = outcome (fragmentsOf inner ctx n) := by
  simp [fragmentsOf, Option.bind_map, Function.comp_def, outcome_body_uniform each ctx, each ctx]

theorem outcome_fragments_uniform (parts : List Raw) :
    outcome (fragments inner ctx (parts.map Raw.uniform)) =
      outcome (fragments inner ctx parts) := by
  induction parts with
  | nil => rfl
  | cons part rest ih =>
    cases part with
    | node tag children =>
      have first := outcome_fragmentsOf_uniform each ctx ⟨tag, children⟩
      simp only [Node.uniform_mk] at first
      simp only [List.map_cons, uniform, fragments, outcome_bind, outcome_pure, first, ih]
    | nil => exact ih
    | bool b =>
      cases b with
      | false => exact ih
      | true => rfl
    | _ => rfl

theorem outcome_pieces_uniform (parts : List Raw) :
    outcome (pieces inner ctx (parts.map Raw.uniform)) = outcome (pieces inner ctx parts) := by
  simp only [pieces, outcome_map, outcome_fragments_uniform each ctx]

theorem outcome_wordForms_uniform (form : Encoding → List Piece → Form) (words : List Raw) :
    outcome (wordForms form inner ctx (words.map Raw.uniform)) =
      outcome (wordForms form inner ctx words) := by
  induction words with
  | nil => rfl
  | cons word rest ih =>
    simp only [List.map_cons, wordForms, outcome_bind, outcome_pure, wordParts_uniform,
      outcome_pieces_uniform each ctx, ih]

theorem outcome_hashItems_uniform (nodes : List Node) :
    outcome (hashItems inner ctx (nodes.map Node.uniform)) =
      outcome (hashItems inner ctx nodes) := by
  have entry (n : Node) :
      outcome (hashEntry inner ctx n.uniform) = outcome (hashEntry inner ctx n) := by
    simp [hashEntry, Option.bind_map, Function.comp_def, each ctx, outcome_value?_uniform each ctx]
  induction nodes with
  | nil => rfl
  | cons n rest ih => simp only [List.map_cons, hashItems, outcome_bind, outcome_pure, entry, ih]

theorem outcome_undefs_uniform (nodes : List Node) :
    outcome (undefs inner ctx (nodes.map Node.uniform)) = outcome (undefs inner ctx nodes) := by
  induction nodes with
  | nil => rfl
  | cons n rest ih =>
    simp only [List.map_cons, undefs, outcome_bind, outcome_pure, Context.lineOf_uniform,
      each ctx, ih]

end Parameters

end Rules

end RubyNormalForm
