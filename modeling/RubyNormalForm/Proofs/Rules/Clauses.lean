import RubyNormalForm.Proofs.Rules.Targets

/-!
# Chains of clauses

The clauses of a `case` and the rescue clauses of a body come as a chain, in which each clause
holds the next one in its last slot. In the normal form they stand side by side. The relations of
this module say what such a chain is, and rule by rule what becomes of the parts of a body: its
statements, its rescue clauses, and what it does otherwise and at the end. Every part that is empty
is left out, except where a place must be filled.

Lines are left out on both sides of the relations.
-/

namespace RubyNormalForm

open Raw Rules

/-! ### The source -/

/-- The clauses chained to a child, each of which holds the next in the given slot, and what ends
the chain. -/
inductive Chain (isClause : Node → Prop) (i : Nat) : Raw → List Node → Raw → Prop
  | last {child : Raw} (ends : ∀ n : Node, child = n.toRaw → ¬ isClause n) :
      Chain isClause i child [] child
  | clause {n : Node} {rest : List Node} {last : Raw} (here : isClause n)
      (next : Chain isClause i (n.slot i) rest last) : Chain isClause i n.toRaw (n :: rest) last

/-- What a clause with the given tag holds; any other child stands for itself. -/
def Raw.insideClause (tag : String) (child : Raw) : Raw :=
  match child.node? with
  | some n => if n.tag = tag then n.slot 0 else child
  | none => child

/-- The statements of a list, empty and absent ones apart. -/
def Raw.statementEntries (children : List Raw) : List Raw :=
  children.filter fun child => !isVoidEntry child

/-! ### The normal form -/

/-- Statements as a body: nothing, the only statement, or a block of several. -/
def asBody : List Form → Option Form
  | [] => none
  | [f] => some f
  | forms => some (.of "block" (forms.map Form.toItem))

/-- Statements after the header of a clause; `nil` stands for none. -/
def asItems : List Form → List Item
  | [] => [.nil]
  | forms => forms.map Form.toItem

mutual

/-- The normal forms of the statements that a child holds. -/
inductive Holds (ctx : Context) : Raw → List Form → Prop
  | absent {child : Raw} (absent : child.isAbsent = true) : Holds ctx child []
  | void (children : List Raw) : Holds ctx (.node "void_stmt" children) []
  | listed {tag : String} {children : List Raw} {forms : List Form}
      (isList : tag = listTag ∨ tag = "stmts")
      (each : List.Forall₂ (HasForm ctx) (statementEntries children) forms) :
      Holds ctx (.node tag children) forms
  | single {n : Node} {f : Form} (other : n.tag ∉ ["bodystmt", "void_stmt", listTag, "stmts"])
      (hasForm : HasForm ctx n.toRaw f) : Holds ctx n.toRaw [f]
  | body {n : Node} {guarded : List Form} (isBody : n.tag = "bodystmt")
      (isGuarded : Guarded ctx n guarded) (noEnsure : (n.slot 3).isAbsent = true) :
      Holds ctx n.toRaw guarded
  | ensured {n clause : Node} {guarded final : List Form} (isBody : n.tag = "bodystmt")
      (isGuarded : Guarded ctx n guarded) (isEnsure : n.slot 3 = clause.toRaw)
      (hasFinal : Holds ctx (insideClause "ensure" clause.toRaw) final) :
      Holds ctx n.toRaw [.of "ensure"
        (((asBody guarded).toList ++ [(asBody final).getD (.of "nil" [])]).map Form.toItem)]

/-- The statements of a body with what guards them. Without a rescue clause, what is done
otherwise follows; with one or more, all is in a single node. -/
inductive Guarded (ctx : Context) : Node → List Form → Prop
  | plain {n : Node} {main others : List Form} (noRescue : (n.slot 1).isAbsent = true)
      (hasMain : Holds ctx (n.slot 0) main)
      (hasOthers : Holds ctx (insideClause "else" (n.slot 2)) others) :
      Guarded ctx n (main ++ others)
  | rescued {n first : Node} {rest : List Node} {last : Raw} {main clauses others : List Form}
      (chain : Chain (fun _ => True) 3 (n.slot 1) (first :: rest) last)
      (ends : last.isAbsent = true) (hasMain : Holds ctx (n.slot 0) main)
      (each : List.Forall₂ (Rescues ctx) (first :: rest) clauses)
      (hasOthers : Holds ctx (insideClause "else" (n.slot 2)) others) :
      Guarded ctx n [.of "rescue"
        (((asBody main).toList ++ clauses ++ (asBody others).toList).map Form.toItem)]

/-- One rescue clause: the classes, the assignment of the exception if a variable is bound, and the
statements. -/
inductive Rescues (ctx : Context) : Node → Form → Prop
  | clause {n : Node} {classes binding inside : List Form}
      (hasClasses : List.Forall₂ (HasForm ctx) (n.slot 0).argumentEntries classes)
      (binds : List.Forall₂ (Mirrors ctx (some (.of "gvar" [.sym "$!"]))) (present [n.slot 1]) binding)
      (holds : Holds ctx (n.slot 2) inside) :
      Rescues ctx n (.of "resbody"
        ((Form.of "array" ((classes ++ binding).map Form.toItem)).toItem :: asItems inside))

end

/-- One clause of a `case`: the tests and the statements. -/
inductive Tests (ctx : Context) : Node → Form → Prop
  | clause {n : Node} {tests inside : List Form}
      (hasTests : List.Forall₂ (HasForm ctx) (n.slot 0).argumentEntries tests)
      (holds : Holds ctx (n.slot 1) inside) :
      Tests ctx n (.of "when"
        ((Form.of "array" (tests.map Form.toItem)).toItem :: asItems inside))

/-- A `case`: the subject, the clauses of its chain in order, and what is done otherwise. The last
item is always there, and so is the first; `nil` stands for what is missing. -/
inductive Cases (ctx : Context) : Node → Form → Prop
  | clauses {n : Node} {subject : Option Form} {clauses : List Node} {last : Raw}
      {forms others : List Form}
      (hasSubject : List.Forall₂ (HasForm ctx) (present [n.slot 0]) subject.toList)
      (chain : Chain (fun m => m.tag = "when") 2 (n.slot 1) clauses last)
      (each : List.Forall₂ (Tests ctx) clauses forms)
      (hasOthers : Holds ctx (insideClause "else" last) others) :
      Cases ctx n (.of "case"
        (Form.itemOf subject :: forms.map Form.toItem ++ [Form.itemOf (asBody others)]))

/-! ### Normal forms without lines -/

theorem unlined_wrap (forms : List Form) :
    (wrap forms).map Form.unlined = asBody (forms.map Form.unlined) := by
  match forms with
  | [] => rfl
  | [f] => rfl
  | f :: g :: rest => exact congrArg some (unlined_group "block" (f :: g :: rest))

theorem toList_map_wrap (forms : List Form) :
    (wrap forms).toList.map Form.unlined = (asBody (forms.map Form.unlined)).toList := by
  rw [← unlined_wrap, Option.toList_map]

theorem unlined_wrapOrNil (forms : List Form) :
    (wrapOrNil forms).unlined = (asBody (forms.map Form.unlined)).getD (.of "nil" []) := by
  rw [← unlined_wrap, wrapOrNil]
  cases wrap forms <;> rfl

theorem unlinedAll_statementItems (forms : List Form) :
    Item.unlinedAll (statementItems forms) = asItems (forms.map Form.unlined) := by
  cases forms with
  | nil => rfl
  | cons f rest => exact Form.unlinedAll_toItem (f :: rest)

theorem unlined_clause (tag : String) (header inside : List Form) (line : Option Nat) :
    ((Form.of tag ((array header).toItem :: statementItems inside)).withLine line).unlined =
      .of tag ((Form.of "array" ((header.map Form.unlined).map Form.toItem)).toItem ::
        asItems (inside.map Form.unlined)) := by
  rw [Form.unlined_withLine, Form.unlined_of, Item.unlinedAll, Form.toItem_unlined, unlined_array,
    unlinedAll_statementItems]

/-! ### Chains -/

/-- A computation that goes through a list relates each element to its own result. -/
theorem forall₂_of_each {α β : Type} {one : α → Result β} {all : List α → Result (List β)}
    (step : ∀ a rest, all (a :: rest) = (do
      let b ← one a
      let bs ← all rest
      return b :: bs)) {as : List α} {bs : List β} (found : all as = .ok bs)
    (start : all [] = .ok []) : List.Forall₂ (fun a b => one a = .ok b) as bs := by
  induction as generalizing bs with
  | nil =>
    rw [start] at found
    cases found
    exact .nil
  | cons first rest ih =>
    rw [step] at found
    obtain ⟨b, isResult, found⟩ := bind_eq_ok.1 found
    obtain ⟨others, areOthers, made⟩ := bind_eq_ok.1 found
    cases made
    exact .cons isResult (ih areOthers)

theorem slot_of_nodeAt? {n : Node} {i : Nat} {child : Option Node}
    (found : n.nodeAt? i = .ok child) :
    (child = none ∧ (n.slot i).isAbsent = true) ∨ ∃ m, child = some m ∧ n.slot i = m.toRaw := by
  rw [Node.nodeAt?] at found
  split at found
  · rename_i tag children isNode
    cases found
    exact .inr ⟨_, rfl, isNode⟩
  · split at found
    · rename_i absent
      cases found
      exact .inl ⟨rfl, absent⟩
    · cases found

theorem ne_toRaw_of_isAbsent {child : Raw} (absent : child.isAbsent = true) (n : Node) :
    child ≠ n.toRaw := by
  rintro rfl
  cases absent

theorem chain_of_isAbsent (isClause : Node → Prop) (i : Nat) {child : Raw}
    (absent : child.isAbsent = true) : Chain isClause i child [] child := by
  refine .last ?_
  intro m isNode
  exact absurd isNode (ne_toRaw_of_isAbsent absent m)

theorem exists_chain_rescueChain {n : Node}
    (ends : ∀ m ∈ rescueChain n, ∃ child, m.nodeAt? 3 = .ok child) :
    ∃ last, Chain (fun _ => True) 3 n.toRaw (rescueChain n) last ∧ last.isAbsent = true := by
  fun_induction rescueChain n with
  | case1 n ih =>
    -- That the slot of the next clause could be read excludes scalars there.
    obtain ⟨child, isChild⟩ := ends n List.mem_cons_self
    rw [← rescueChain, rescueChain_eq] at ends ⊢
    obtain ⟨-, absent⟩ | ⟨next, -, isNext⟩ := slot_of_nodeAt? isChild
    · have noNode : (n.slot 3).node? = none := by
        refine Option.eq_none_iff_forall_ne_some.2 fun m isNode => ?_
        exact ne_toRaw_of_isAbsent absent m (node?_eq_some isNode)
      rw [noNode]
      exact ⟨n.slot 3, .clause trivial (chain_of_isAbsent _ 3 absent), absent⟩
    · have isNode : (n.slot 3).node? = some next := by
        rw [isNext]
        rfl
      rw [isNode] at ends ⊢
      obtain ⟨last, chain, absent⟩ :=
        ih next isNode fun m member => ends m (List.mem_cons_of_mem n member)
      exact ⟨last, .clause trivial (isNext ▸ chain), absent⟩

theorem exists_chain_whenChain {n : Node}
    (ends : ∀ m ∈ (whenChain n).1, ∃ child, m.nodeAt? 2 = .ok child) :
    ∃ last, Chain (fun m => m.tag = "when") 2 n.toRaw (whenChain n).1 last ∧
      ((whenChain n).2 = none ∧ last.isAbsent = true ∨
        ∃ m, (whenChain n).2 = some m ∧ last = m.toRaw) := by
  fun_induction whenChain n with
  | case1 n isWhen next isNext clauses last rest ih =>
    rw [rest] at ih
    obtain ⟨last, chain, isLast⟩ := ih fun m member => ends m (List.mem_cons_of_mem n member)
    have slot : n.slot 2 = next.toRaw := node?_eq_some isNext
    exact ⟨last, .clause (eq_of_beq isWhen) (slot ▸ chain), isLast⟩
  | case2 n isWhen noNext =>
    obtain ⟨child, isChild⟩ := ends n List.mem_cons_self
    obtain ⟨-, absent⟩ | ⟨next, -, isNext⟩ := slot_of_nodeAt? isChild
    · refine ⟨n.slot 2, .clause (eq_of_beq isWhen) ?_, .inl ⟨rfl, absent⟩⟩
      exact chain_of_isAbsent _ 2 absent
    · rw [isNext] at noNext
      cases noNext
  | case3 n other =>
    -- Any other node ends the chain, whether it is an `else` clause or not.
    refine ⟨n.toRaw, .last ?_, .inr ⟨n, rfl, rfl⟩⟩
    rintro m isNode isWhen
    cases m
    cases isNode
    exact other (beq_iff_eq.2 isWhen)

/-! ### Bodies -/

section Bodies

variable {ctx : Context}

theorem insideElse_eq (child : Raw) : insideElse child = insideClause "else" child := by
  cases child with
  | node tag children => simp [insideElse, insideClause, Raw.node?]
  | _ => rfl

theorem insideEnsure_eq (n : Node) : insideEnsure n = insideClause "ensure" n.toRaw := by
  simp [insideEnsure, insideClause, Raw.node?, Node.toRaw, Node.is]

theorem hasForm_of_listed {children : List Raw} {forms : List Form}
    (found : listed normalizeNode ctx children = .ok forms) :
    List.Forall₂ (HasForm ctx) (statementEntries children) (forms.map Form.unlined) := by
  induction children generalizing forms with
  | nil =>
    cases found
    exact .nil
  | cons child rest ih =>
    cases child with
    | node tag children =>
      rw [listed] at found
      split at found
      · rename_i isVoid
        simpa [statementEntries, isVoidEntry, isVoid] using ih found
      · rename_i notVoid
        obtain ⟨f, normal, found⟩ := bind_eq_ok.1 found
        obtain ⟨others, areOthers, made⟩ := bind_eq_ok.1 found
        cases made
        have kept : statementEntries (.node tag children :: rest) =
            .node tag children :: statementEntries rest := by
          simp [statementEntries, isVoidEntry, notVoid]
        rw [kept]
        exact .cons (hasForm_of_normalizeNode normal) (ih areOthers)
    | _ =>
      simp only [listed] at found
      split at found
      · rename_i absent
        simpa [statementEntries, isVoidEntry, absent] using ih found
      · cases found

/-- The statements of a child hold, if those of the bodies do that are given. -/
theorem holds_of_statementsWith {body : Node → Result (List Form)}
    (bodies : ∀ (m : Node) (forms : List Form), m.tag = "bodystmt" → body m = .ok forms →
      Holds ctx m.toRaw (forms.map Form.unlined)) {child : Raw} {forms : List Form}
    (found : statementsWith normalizeNode ctx body child = .ok forms) :
    Holds ctx child (forms.map Form.unlined) := by
  cases child with
  | node tag children =>
    simp only [statementsWith] at found
    split at found
    · rename_i isBody
      exact bodies ⟨tag, children⟩ forms (eq_of_beq isBody) found
    rename_i notBody
    split at found
    · rename_i isVoid
      obtain rfl : tag = "void_stmt" := eq_of_beq isVoid
      cases found
      exact .void children
    rename_i notVoid
    split at found
    · rename_i isList
      exact .listed (by simpa [Node.isStatements, Node.isList, Node.is] using isList)
        (hasForm_of_listed found)
    · rename_i notList
      obtain ⟨f, normal, rfl⟩ := map_eq_ok.1 found
      refine .single (n := ⟨tag, children⟩) ?_ (hasForm_of_normalizeNode normal)
      simp only [Node.isStatements, Node.isList, Node.is, Bool.or_eq_true, beq_iff_eq, not_or]
        at notBody notVoid notList
      simp [notBody, notVoid, notList]
  | _ =>
    simp only [statementsWith] at found
    split at found
    · rename_i absent
      cases found
      exact .absent absent
    · cases found

section Clauses

variable {statements : Raw → Result (List Form)}
variable (holds : ∀ (child : Raw) (forms : List Form), statements child = .ok forms →
  Holds ctx child (forms.map Form.unlined))
include holds

theorem rescues_of_rescueClause {n : Node} {f : Form}
    (found : rescueClause normalizeNode ctx statements n = .ok f) : Rescues ctx n f.unlined := by
  obtain ⟨bound, isBound, found⟩ := bind_eq_ok.1 found
  obtain ⟨_, -, found⟩ := bind_eq_ok.1 found
  obtain ⟨classes, areClasses, found⟩ := bind_eq_ok.1 found
  -- With a variable or without, the clause goes on in the same way.
  have made {binding : List Form} (found : (do
        let inside ← statements (n.slot 2)
        pure ((Form.of "resbody"
          ((array (classes ++ binding)).toItem :: statementItems inside)).withLine
            (ctx.lineOf n))) = .ok f)
      (binds : List.Forall₂ (Mirrors ctx (some (.of "gvar" [.sym "$!"]))) (present [n.slot 1])
        (binding.map Form.unlined)) : Rescues ctx n f.unlined := by
    obtain ⟨inside, isInside, made⟩ := bind_eq_ok.1 found
    cases made
    rw [unlined_clause, List.map_append]
    exact .clause (hasForm_of_arguments areClasses) binds (holds _ _ isInside)
  obtain ⟨rfl, absent⟩ | ⟨v, rfl, isVariable⟩ := slot_of_nodeAt? isBound
  · refine @made [] found ?_
    rw [present_of_isAbsent absent]
    exact .nil
  · obtain ⟨binding, isBinding, found⟩ := bind_eq_ok.1 found
    obtain ⟨g, assigned, rfl⟩ := map_eq_ok.1 isBinding
    refine made found ?_
    rw [isVariable]
    exact .cons (mirrors_of_target _ assigned) .nil

theorem rescues_of_rescueClauses {clauses : List Node} {forms : List Form}
    (found : rescueClauses normalizeNode ctx statements clauses = .ok forms) :
    List.Forall₂ (Rescues ctx) clauses (forms.map Form.unlined) := by
  have each : List.Forall₂ (fun n f => rescueClause normalizeNode ctx statements n = .ok f)
      clauses forms := forall₂_of_each (fun _ _ => rfl) found rfl
  rw [List.forall₂_map_right_iff]
  exact each.imp fun _ _ isClause => rescues_of_rescueClause holds isClause

omit holds in
theorem exists_nodeAt?_of_rescueClauses {clauses : List Node} {forms : List Form}
    (found : rescueClauses normalizeNode ctx statements clauses = .ok forms) {n : Node}
    (isClause : n ∈ clauses) : ∃ child, n.nodeAt? 3 = .ok child := by
  obtain ⟨f, -, found⟩ := exists_of_rescueClauses found isClause
  obtain ⟨bound, -, found⟩ := bind_eq_ok.1 found
  obtain ⟨child, isChild, -⟩ := bind_eq_ok.1 found
  exact ⟨child, isChild⟩

theorem guarded_of_rescueClauses {n first : Node} {main forms others : List Form}
    (isFirst : n.slot 1 = first.toRaw)
    (found : rescueClauses normalizeNode ctx statements (rescueChain first) = .ok forms)
    (hasMain : Holds ctx (n.slot 0) (main.map Form.unlined))
    (hasOthers : Holds ctx (insideClause "else" (n.slot 2)) (others.map Form.unlined)) :
    Guarded ctx n [(Form.group "rescue"
      ((wrap main).toList ++ forms ++ (wrap others).toList)).unlined] := by
  obtain ⟨last, chain, absent⟩ := exists_chain_rescueChain fun m isClause =>
    exists_nodeAt?_of_rescueClauses found isClause
  have each := rescues_of_rescueClauses holds found
  rw [rescueChain, ← isFirst] at chain
  rw [rescueChain] at each
  have parts : ((wrap main).toList ++ forms ++ (wrap others).toList).map Form.unlined =
      (asBody (main.map Form.unlined)).toList ++ forms.map Form.unlined ++
        (asBody (others.map Form.unlined)).toList := by
    simp only [List.map_append, toList_map_wrap]
  rw [unlined_group, parts]
  exact .rescued chain absent hasMain each hasOthers

theorem holds_of_guarded {n : Node} (isBody : n.tag = "bodystmt") {ensure? : Option Node}
    (isEnsure : n.nodeAt? 3 = .ok ensure?) {guarded forms : List Form}
    (isGuarded : Guarded ctx n (guarded.map Form.unlined))
    (found : (match ensure? with
      | some clause => do
        let final ← statements (insideEnsure clause)
        pure [(Form.group "ensure" ((wrap guarded).toList ++ [wrapOrNil final])).raiseLines]
      | none => pure guarded) = .ok forms) : Holds ctx n.toRaw (forms.map Form.unlined) := by
  obtain ⟨rfl, absent⟩ | ⟨clause, rfl, isClause⟩ := slot_of_nodeAt? isEnsure
  · cases found
    exact .body isBody isGuarded absent
  · obtain ⟨final, isFinal, made⟩ := bind_eq_ok.1 found
    cases made
    have hasFinal := holds _ _ isFinal
    rw [insideEnsure_eq] at hasFinal
    have parts : ((wrap guarded).toList ++ [wrapOrNil final]).map Form.unlined =
        (asBody (guarded.map Form.unlined)).toList ++
          [(asBody (final.map Form.unlined)).getD (.of "nil" [])] := by
      rw [List.map_append, toList_map_wrap, List.map_singleton, unlined_wrapOrNil]
    rw [List.map_singleton, Form.unlined_raiseLines, unlined_group, parts]
    exact .ensured isBody isGuarded isClause hasFinal

end Clauses

/-- The statements of a body with clauses hold, if those of the bodies in it do. -/
theorem holds_of_bodyStep {body : Node → Result (List Form)}
    (bodies : ∀ (m : Node) (forms : List Form), m.tag = "bodystmt" → body m = .ok forms →
      Holds ctx m.toRaw (forms.map Form.unlined))
    {n : Node} (isBody : n.tag = "bodystmt") {forms : List Form}
    (found : bodyStep normalizeNode ctx body n = .ok forms) :
    Holds ctx n.toRaw (forms.map Form.unlined) := by
  have holds (child : Raw) (forms : List Form)
      (found : statementsWith normalizeNode ctx body child = .ok forms) :
      Holds ctx child (forms.map Form.unlined) := holds_of_statementsWith bodies found
  rw [bodyStep] at found
  obtain ⟨main, isMain, found⟩ := bind_eq_ok.1 found
  obtain ⟨rescue?, isRescue, found⟩ := bind_eq_ok.1 found
  obtain ⟨ensure?, isEnsure, found⟩ := bind_eq_ok.1 found
  obtain ⟨others, areOthers, found⟩ := bind_eq_ok.1 found
  have hasMain := holds _ _ isMain
  have hasOthers := holds _ _ areOthers
  rw [insideElse_eq] at hasOthers
  obtain ⟨rfl, absent⟩ | ⟨first, rfl, isFirst⟩ := slot_of_nodeAt? isRescue
  · refine holds_of_guarded holds isBody isEnsure ?_ found
    rw [List.map_append]
    exact .plain absent hasMain hasOthers
  · obtain ⟨clauses, areClauses, found⟩ := bind_eq_ok.1 found
    refine holds_of_guarded holds isBody isEnsure ?_ found
    rw [List.map_singleton, Form.unlined_raiseLines]
    exact guarded_of_rescueClauses holds isFirst areClauses hasMain hasOthers

theorem holds_of_bodyStatements {n : Node} (isBody : n.tag = "bodystmt") {forms : List Form}
    (found : bodyStatements normalizeNode ctx n = .ok forms) :
    Holds ctx n.toRaw (forms.map Form.unlined) := by
  induction size : n.size using Nat.strongRecOn generalizing n forms with
  | ind s ih =>
    subst size
    rw [bodyStatements, Node.bySize_eq] at found
    refine holds_of_bodyStep (fun m forms isBody found => ?_) isBody found
    -- A body that is not smaller is refused, so a result comes from a smaller one.
    split at found
    · rename_i smaller
      exact ih m.size smaller isBody found rfl
    · cases found

theorem holds_of_statements {child : Raw} {forms : List Form}
    (found : statements normalizeNode ctx child = .ok forms) :
    Holds ctx child (forms.map Form.unlined) :=
  holds_of_statementsWith (fun _ _ isBody found => holds_of_bodyStatements isBody found) found

end Bodies

/-! ### The clauses of a `case` -/

/-- The chain of clauses that begins with a node, if there is one. -/
def chainFrom : Option Node → List Node × Option Node
  | some first => whenChain first
  | none => ([], none)

/-- The node that ends a chain, as a body. -/
def lastBody (inner : Normalizer) (ctx : Context) : Option Node → Result (Option Form)
  | some clause => elseBody inner ctx clause.toRaw
  | none => .ok none

theorem caseRule_eq (inner : Normalizer) (ctx : Context) (n : Node) :
    caseRule inner ctx n = (do
      let subject ← value? inner ctx (n.slot 0)
      let first ← n.nodeAt? 1
      let clauses ← whenClauses inner ctx (chainFrom first).1
      let otherwise ← lastBody inner ctx (chainFrom first).2
      return ((Form.of "case" [Form.itemOf subject]).pushAll clauses).push
        (Form.itemOf otherwise)) := by
  refine bind_congr_ok rfl fun subject _ => bind_congr_ok rfl fun first _ => ?_
  refine bind_congr_ok rfl fun clauses _ => ?_
  cases first with
  | none => rfl
  | some first =>
    simp only [chainFrom]
    cases (whenChain first).2 <;> rfl

section Case

variable {ctx : Context}

theorem tests_of_whenClause {n : Node} {f : Form}
    (found : whenClause normalizeNode ctx n = .ok f) :
    Tests ctx n f.unlined ∧ ∃ child, n.nodeAt? 2 = .ok child := by
  obtain ⟨tests, areTests, found⟩ := bind_eq_ok.1 found
  obtain ⟨inside, isInside, found⟩ := bind_eq_ok.1 found
  obtain ⟨child, isChild, made⟩ := bind_eq_ok.1 found
  cases made
  rw [unlined_clause]
  exact ⟨.clause (hasForm_of_arguments areTests) (holds_of_statements isInside), child, isChild⟩

theorem tests_of_whenClauses {clauses : List Node} {forms : List Form}
    (found : whenClauses normalizeNode ctx clauses = .ok forms) :
    List.Forall₂ (Tests ctx) clauses (forms.map Form.unlined) := by
  have each : List.Forall₂ (fun n f => whenClause normalizeNode ctx n = .ok f) clauses forms :=
    forall₂_of_each (fun _ _ => rfl) found rfl
  rw [List.forall₂_map_right_iff]
  exact each.imp fun _ _ isClause => (tests_of_whenClause isClause).1

theorem exists_nodeAt?_of_whenClauses {clauses : List Node} {forms : List Form}
    (found : whenClauses normalizeNode ctx clauses = .ok forms) {n : Node}
    (isClause : n ∈ clauses) : ∃ child, n.nodeAt? 2 = .ok child := by
  obtain ⟨f, -, found⟩ := exists_of_each (fun _ _ => rfl) found isClause
  exact (tests_of_whenClause found).2

theorem unlined_case (subject otherwise : Option Form) (clauses : List Form) :
    (((Form.of "case" [Form.itemOf subject]).pushAll clauses).push
        (Form.itemOf otherwise)).unlined =
      .of "case" (Form.itemOf (subject.map Form.unlined) ::
        (clauses.map Form.unlined).map Form.toItem ++
          [Form.itemOf (otherwise.map Form.unlined)]) := by
  have unlined_itemOf (f : Option Form) :
      (Form.itemOf f).unlined = Form.itemOf (f.map Form.unlined) := by
    cases f with
    | none => rfl
    | some f => exact f.toItem_unlined
  simp only [Form.push, Form.pushAll, Form.of, Form.unlined, Item.unlinedAll_append,
    Item.unlinedAll, unlined_itemOf, Form.unlinedAll_toItem, List.cons_append, List.nil_append]

theorem exists_chain_chainFrom {n : Node} {first : Option Node} (isFirst : n.nodeAt? 1 = .ok first)
    (ends : ∀ m ∈ (chainFrom first).1, ∃ child, m.nodeAt? 2 = .ok child) :
    ∃ last, Chain (fun m => m.tag = "when") 2 (n.slot 1) (chainFrom first).1 last ∧
      ((chainFrom first).2 = none ∧ last.isAbsent = true ∨
        ∃ m, (chainFrom first).2 = some m ∧ last = m.toRaw) := by
  obtain ⟨rfl, absent⟩ | ⟨first, rfl, slot⟩ := slot_of_nodeAt? isFirst
  · exact ⟨n.slot 1, chain_of_isAbsent _ 2 absent, .inl ⟨rfl, absent⟩⟩
  · rw [slot]
    exact exists_chain_whenChain ends

theorem insideClause_of_isAbsent (tag : String) {child : Raw} (absent : child.isAbsent = true) :
    insideClause tag child = child := by
  cases child <;> first | rfl | cases absent

/-- What ends a chain is done otherwise. -/
theorem holds_of_lastBody {last? : Option Node} {last : Raw}
    (isLast : last? = none ∧ last.isAbsent = true ∨ ∃ m, last? = some m ∧ last = m.toRaw)
    {otherwise : Option Form} (found : lastBody normalizeNode ctx last? = .ok otherwise) :
    ∃ others, Holds ctx (insideClause "else" last) others ∧
      otherwise.map Form.unlined = asBody others := by
  obtain ⟨rfl, absent⟩ | ⟨m, rfl, rfl⟩ := isLast
  · cases found
    rw [insideClause_of_isAbsent "else" absent]
    exact ⟨[], .absent absent, rfl⟩
  · obtain ⟨forms, areForms, rfl⟩ := map_eq_ok.1 found
    have holds := holds_of_statements areForms
    rw [insideElse_eq] at holds
    exact ⟨forms.map Form.unlined, holds, unlined_wrap forms⟩

theorem cases_of_caseRule {n : Node} {f : Form} (found : caseRule normalizeNode ctx n = .ok f) :
    Cases ctx n f.unlined := by
  rw [caseRule_eq] at found
  obtain ⟨subject, isSubject, found⟩ := bind_eq_ok.1 found
  obtain ⟨first, isFirst, found⟩ := bind_eq_ok.1 found
  obtain ⟨forms, areForms, found⟩ := bind_eq_ok.1 found
  obtain ⟨otherwise, isOtherwise, made⟩ := bind_eq_ok.1 found
  cases made
  obtain ⟨last, chain, isLast⟩ := exists_chain_chainFrom isFirst fun m isClause =>
    exists_nodeAt?_of_whenClauses areForms isClause
  obtain ⟨others, hasOthers, same⟩ := holds_of_lastBody isLast isOtherwise
  have hasSubject := hasForm_of_value? isSubject
  rw [← Option.toList_map] at hasSubject
  rw [unlined_case, same]
  exact .clauses hasSubject chain (tests_of_whenClauses areForms) hasOthers

end Case

/-! ### What the rules look at -/

theorem size_le_of_mem_whenChain {n m : Node}
    (member : m ∈ (whenChain n).1 ∨ (whenChain n).2 = some m) : m.size ≤ n.size := by
  fun_induction whenChain n with
  | case1 n isWhen next isNext clauses last rest ih =>
    have smaller := Node.size_slot_lt n 2
    rw [← Node.size_of_node? isNext] at smaller
    rw [rest] at ih
    rw [List.mem_cons, or_assoc] at member
    obtain rfl | member := member
    · exact Nat.le_refl _
    · exact Nat.le_trans (ih member) (Nat.le_of_lt smaller)
  | case2 n isWhen noNext =>
    obtain here | here := member
    · exact Nat.le_of_eq (congrArg Node.size (List.mem_singleton.1 here))
    · cases here
  | case3 n other =>
    obtain here | here := member
    · cases here
    · cases here
      exact Nat.le_refl _

section Locality

variable {k : Nat} {inner inner' : Normalizer} (agree : AgreeBelow k inner inner') (ctx : Context)
include agree

theorem whenClause_congr {n : Node} (le : n.size ≤ k) :
    whenClause inner ctx n = whenClause inner' ctx n := by
  have tests := arguments_congr agree ctx (Nat.lt_of_lt_of_le (Node.size_slot_lt n 0) le)
  have inside := statements_congr agree ctx (Nat.lt_of_lt_of_le (Node.size_slot_lt n 1) le)
  simp only [whenClause, tests, inside]

theorem whenClauses_congr {clauses : List Node} (le : ∀ n ∈ clauses, n.size ≤ k) :
    whenClauses inner ctx clauses = whenClauses inner' ctx clauses := by
  induction clauses with
  | nil => rfl
  | cons n rest ih =>
    have first := whenClause_congr agree ctx (le n (by simp))
    have others := ih (fun m member => le m (by simp [member]))
    simp only [whenClauses, first, others]

end Locality

theorem caseRule_localAt (ctx : Context) (n : Node) : Rule.LocalAt caseRule ctx n := by
  intro inner inner' agree
  rw [caseRule_eq, caseRule_eq, value?_congr agree ctx (Node.size_slot_lt n 0)]
  refine bind_congr_ok rfl fun subject _ => bind_congr_ok rfl fun first isFirst => ?_
  cases first with
  | none => rfl
  | some first =>
    have small := Node.size_of_nodeAt? isFirst
    have clauses : whenClauses inner ctx (whenChain first).1 =
        whenClauses inner' ctx (whenChain first).1 :=
      whenClauses_congr agree ctx fun m member =>
        Nat.le_trans (size_le_of_mem_whenChain (.inl member)) (Nat.le_of_lt small)
    have last : lastBody inner ctx (whenChain first).2 =
        lastBody inner' ctx (whenChain first).2 := by
      cases isLast : (whenChain first).2 with
      | none => rfl
      | some m =>
        refine elseBody_congr agree ctx ?_
        rw [Node.size_toRaw]
        exact Nat.lt_of_le_of_lt (size_le_of_mem_whenChain (.inr isLast)) small
    simp only [chainFrom, clauses, last]

theorem statements_of_body {n : Node} (isBody : n.tag = "bodystmt") (inner : Normalizer)
    (ctx : Context) : statements inner ctx n.toRaw = bodyStatements inner ctx n := by
  have isBody : n.is "bodystmt" = true := beq_iff_eq.2 isBody
  rw [statements, Node.toRaw, statementsWith, if_pos isBody]

theorem sequenceRule_localAt {n : Node} (isBody : n.tag = "bodystmt") (ctx : Context) :
    Rule.LocalAt sequenceRule ctx n := by
  intro inner inner' agree
  rw [sequenceRule, sequenceRule, statements_of_body isBody, statements_of_body isBody,
    bodyStatements_congr agree ctx (Nat.le_refl _)]

/-! ### Flattening -/

/-- Chains of clauses of any length become the clauses side by side, in order. A `case` with a
normal form holds its subject, one node for each clause of its chain, and what is done otherwise.
The statements of a body with clauses are guarded by one node that holds all its rescue clauses,
and by another for what is done at the end. -/
theorem normalizeNode_flattens_clauses (ctx : Context) :
    (∀ (n : Node) (f : Form), n.tag = "case" → normalizeNode ctx n = .ok f →
      Cases ctx n f.unlined) ∧
    (∀ (child : Raw) (forms : List Form), statements normalizeNode ctx child = .ok forms →
      Holds ctx child (forms.map Form.unlined)) ∧
    ∀ (n : Node) (f : Form), n.tag = "bodystmt" → normalizeNode ctx n = .ok f →
      ∃ forms, Holds ctx n.toRaw forms ∧ f.unlined = (asBody forms).getD (.of "nil" []) := by
  refine ⟨?_, fun _ _ found => holds_of_statements found, ?_⟩
  · intro n f isCase normal
    have found : rule? n.tag = some caseRule := by
      rw [isCase]
      rfl
    obtain ⟨g, made, same⟩ := exists_of_localAt found (caseRule_localAt ctx n) normal
    rw [same]
    exact cases_of_caseRule made
  · intro n f isBody normal
    have found : rule? n.tag = some sequenceRule := by
      rw [isBody]
      rfl
    obtain ⟨g, made, same⟩ := exists_of_localAt found (sequenceRule_localAt isBody ctx) normal
    obtain ⟨forms, areForms, rfl⟩ := map_eq_ok.1 made
    rw [same, unlined_wrapOrNil]
    exact ⟨_, holds_of_statements areForms, rfl⟩

/-- `case a when b, c then d when e else f end`. -/
def chainedCase : Node :=
  ⟨"case",
    [bareCall "a",
     .node "when"
      [.node listTag [bareCall "b", bareCall "c"], .node listTag [bareCall "d"],
       .node "when"
        [.node listTag [bareCall "e"], .node listTag [.node "void_stmt" []],
         .node "else" [.node listTag [bareCall "f"]]]]]⟩

/-- `a; b rescue C => e then c rescue D else d ensure end`, a body whose last clause is empty. -/
def guardedBody : Node :=
  ⟨"bodystmt",
    [.node listTag [bareCall "a", bareCall "b"],
     .node "rescue"
      [.node listTag [.node "var_ref" [.node "@const" [.str "C", .pos 2 7]]],
       .node "var_field" [.node "@ident" [.str "e", .pos 2 12]], .node listTag [bareCall "c"],
       .node "rescue" [.node listTag [.node "var_ref" [.node "@const" [.str "D", .pos 3 7]]], .nil,
        .node listTag [.node "void_stmt" []], .nil]],
     .node "else" [.node listTag [bareCall "d"]],
     .node "ensure" [.node listTag [.node "void_stmt" []]]]⟩

theorem chainedCase_and_guardedBody_flatten :
    (∃ f, normalizeNode exampleContext chainedCase = .ok f ∧
      Cases exampleContext chainedCase f.unlined) ∧
    (∃ forms, statements normalizeNode exampleContext guardedBody.toRaw = .ok forms ∧
      Holds exampleContext guardedBody.toRaw (forms.map Form.unlined)) ∧
    ∃ f, normalizeNode exampleContext guardedBody = .ok f ∧
      ∃ forms, Holds exampleContext guardedBody.toRaw forms ∧
        f.unlined = (asBody forms).getD (.of "nil" []) := by
  obtain ⟨f, isCase⟩ : ∃ f, normalizeNode exampleContext chainedCase = .ok f :=
    ⟨_, by with_unfolding_all rfl⟩
  obtain ⟨forms, areForms⟩ :
      ∃ forms, statements normalizeNode exampleContext guardedBody.toRaw = .ok forms :=
    ⟨_, by with_unfolding_all rfl⟩
  obtain ⟨g, isBody⟩ : ∃ g, normalizeNode exampleContext guardedBody = .ok g :=
    ⟨_, by with_unfolding_all rfl⟩
  obtain ⟨flattens, guards, becomes⟩ := normalizeNode_flattens_clauses exampleContext
  exact ⟨⟨f, isCase, flattens _ f rfl isCase⟩, ⟨forms, areForms, guards _ forms areForms⟩,
    g, isBody, becomes _ g rfl isBody⟩

end RubyNormalForm
