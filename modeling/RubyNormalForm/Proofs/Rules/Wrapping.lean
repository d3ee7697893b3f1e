import RubyNormalForm.Proofs.Rules.Branching

/-!
# Conditions in parentheses

A condition may stand in parentheses or between `begin` and `end`, any number of them. A range
is taken out of its wrappings by looking at the raw tree; any other condition is normalised
with its wrappings around it. The two ways agree: whichever form the condition belongs to, the
normal form is that of the condition without the wrappings, and so is the error if there is
none.

What a form makes of its condition is the same for all forms with a condition, and is recorded
by `ConditionFrame`: the other parts do not depend on the condition, and the expression of the
condition is the first item of the result.
-/

namespace RubyNormalForm

namespace Rules

/-! ### Wrappings -/

/-- A list of statements in which a node is the only statement. -/
inductive HoldsOnly (c : Raw.Node) : Raw → Prop
  | list (before after : List Raw) (statement : c.tag ≠ "void_stmt")
      (voidBefore : before.all isVoidEntry = true) (voidAfter : after.all isVoidEntry = true) :
      HoldsOnly c (.node Raw.listTag (before ++ c.toRaw :: after))

/-- A node in parentheses, or between `begin` and `end` without clauses. -/
inductive Wrapping (c : Raw.Node) : Raw.Node → Prop
  | paren {list : Raw} (only : HoldsOnly c list) : Wrapping c ⟨"paren", [list]⟩
  | begin {list rescue otherwise ensure : Raw} (only : HoldsOnly c list)
      (noRescue : rescue.isAbsent = true) (noElse : otherwise.isAbsent = true)
      (noEnsure : ensure.isAbsent = true) :
      Wrapping c ⟨"begin", [.node "bodystmt" [list, rescue, otherwise, ensure]]⟩

/-- A node in any number of wrappings. -/
inductive Nest (c : Raw.Node) : Raw.Node → Prop
  | bare : Nest c c
  | wrap {m w : Raw.Node} (inside : Nest c m) (wraps : Wrapping m w) : Nest c w

/-! ### Void entries -/

theorem filter_statements_of_void {entries : List Raw} (void : entries.all isVoidEntry = true) :
    (entries.filterMap Raw.node?).filter (!·.is "void_stmt") = [] := by
  induction entries with
  | nil => rfl
  | cons entry rest ih =>
    rw [List.all_cons, Bool.and_eq_true] at void
    cases entry with
    | node tag children =>
      have isVoid : (Raw.Node.mk tag children).is "void_stmt" = true := void.1
      have isNode : (Raw.node tag children).node? = some ⟨tag, children⟩ := rfl
      rw [List.filterMap_cons_some isNode, List.filter_cons_of_neg (by simp [isVoid]), ih void.2]
    | _ => rw [List.filterMap_cons_none rfl, ih void.2]

theorem listed_append_of_void (inner : Normalizer) (ctx : Context) {entries : List Raw}
    (void : entries.all isVoidEntry = true) (rest : List Raw) :
    listed inner ctx (entries ++ rest) = listed inner ctx rest := by
  induction entries with
  | nil => rfl
  | cons entry entries ih =>
    rw [List.all_cons, Bool.and_eq_true] at void
    rw [List.cons_append, listed.eq_def]
    cases entry with
    | node tag children =>
      have isVoid : (tag == "void_stmt") = true := void.1
      simp only [isVoid, if_true, ih void.2]
    | _ =>
      have absent := void.1
      simp only [isVoidEntry] at absent
      simp only [absent, if_true, ih void.2]

variable {c w : Raw.Node}

/-- The only statement of a list is found by looking at the list. -/
theorem HoldsOnly.statements {list : Raw} (only : HoldsOnly c list) :
    ∃ n : Raw.Node, list = n.toRaw ∧ n.statements = [c] := by
  cases only with
  | list before after statement voidBefore voidAfter =>
    refine ⟨⟨Raw.listTag, before ++ c.toRaw :: after⟩, rfl, ?_⟩
    have notVoid : c.is "void_stmt" = false := by simpa [Raw.Node.is] using statement
    have isList : (Raw.Node.mk Raw.listTag (before ++ c.toRaw :: after)).isStatements = true := rfl
    have isNode : c.toRaw.node? = some c := rfl
    rw [Raw.Node.statements, if_pos isList, List.filterMap_append, List.filter_append,
      filter_statements_of_void voidBefore, List.filterMap_cons_some isNode,
      List.filter_cons_of_pos (by simp [notVoid]), filter_statements_of_void voidAfter]
    rfl

/-- The normal forms in the list are that of its only statement. -/
theorem HoldsOnly.statementsWith {list : Raw} (only : HoldsOnly c list) (inner : Normalizer)
    (ctx : Context) (body : Raw.Node → Result (List Form)) :
    statementsWith inner ctx body list = (inner ctx c).map ([·]) := by
  cases only with
  | list before after statement voidBefore voidAfter =>
    have rest : listed inner ctx after = .ok [] := by
      rw [← List.append_nil after, listed_append_of_void inner ctx voidAfter]
      rfl
    have single : listed inner ctx (c.toRaw :: after) = (inner ctx c).map ([·]) := by
      simp only [listed, Raw.Node.toRaw, beq_iff_eq, statement, if_false, rest]
      cases inner ctx c <;> rfl
    rw [← single, ← listed_append_of_void inner ctx voidBefore]
    rfl

/-! ### Taking off the wrappings -/

theorem Wrapping.wrapped? (wraps : Wrapping c w) : w.wrapped? = some c := by
  cases wraps with
  | paren only =>
    obtain ⟨n, rfl, single⟩ := only.statements
    have body : Raw.Node.wrappedBody? ⟨"paren", [n.toRaw]⟩ = some n := rfl
    rw [Raw.Node.wrapped?, body, Option.map_some, single]
  | @begin list rescue otherwise ensure only noRescue noElse noEnsure =>
    obtain ⟨n, rfl, single⟩ := only.statements
    have body : Raw.Node.wrappedBody?
        ⟨"begin", [.node "bodystmt" [n.toRaw, rescue, otherwise, ensure]]⟩ = some n := by
      simp [Raw.Node.wrappedBody?, Raw.Node.is, Raw.Node.child?, Raw.Node.slot, Raw.node?,
        noRescue, noElse, noEnsure, Raw.Node.toRaw]
    rw [Raw.Node.wrapped?, body, Option.map_some, single]

theorem Wrapping.unwrap? (wraps : Wrapping c w) : w.unwrap? = some (c.unwrap?.getD c) := by
  rw [Raw.Node.unwrap?.eq_def]
  split
  · rename_i none
    rw [wraps.wrapped?] at none
    cases none
  · rename_i m found
    rw [wraps.wrapped?] at found
    cases found
    rfl

/-- Wrappings around a node are looked through down to where those of the node itself end. -/
theorem Nest.unwrap? (nest : Nest c w) :
    w = c ∨ w.unwrap? = some (c.unwrap?.getD c) := by
  induction nest with
  | bare => exact .inl rfl
  | wrap inside wraps ih =>
    right
    rw [wraps.unwrap?]
    obtain rfl | outer := ih
    · rfl
    · rw [outer, Option.getD_some]

/-! ### The normal form of a wrapped node -/

theorem nodeAt?_of_isAbsent {n : Raw.Node} {i : Nat} (absent : (n.slot i).isAbsent = true) :
    n.nodeAt? i = .ok none := by
  rw [Raw.Node.nodeAt?]
  split
  · rename_i slot
    rw [slot] at absent
    cases absent
  · rw [if_pos absent]

theorem statementsWith_of_isAbsent {r : Raw} (absent : r.isAbsent = true) (inner : Normalizer)
    (ctx : Context) (body : Raw.Node → Result (List Form)) :
    statementsWith inner ctx body (insideElse r) = .ok [] := by
  cases r with
  | node => cases absent
  | _ => simp only [insideElse, statementsWith, absent, if_true]

/-- The statements of a body without clauses are those of its list. -/
theorem HoldsOnly.bodyStatements {list rescue otherwise ensure : Raw} (only : HoldsOnly c list)
    (noRescue : rescue.isAbsent = true) (noElse : otherwise.isAbsent = true)
    (noEnsure : ensure.isAbsent = true) (inner : Normalizer) (ctx : Context) :
    bodyStatements inner ctx ⟨"bodystmt", [list, rescue, otherwise, ensure]⟩ =
      (inner ctx c).map ([·]) := by
  let n : Raw.Node := ⟨"bodystmt", [list, rescue, otherwise, ensure]⟩
  have first : n.nodeAt? 1 = .ok none := nodeAt?_of_isAbsent noRescue
  have third : n.nodeAt? 3 = .ok none := nodeAt?_of_isAbsent noEnsure
  rw [Rules.bodyStatements, Raw.Node.bySize_eq, bodyStep, first, third]
  change (Rules.statementsWith inner ctx _ list >>= _) = _
  rw [only.statementsWith inner ctx]
  cases inner ctx c with
  | error e => rfl
  | ok f =>
    change (Rules.statementsWith inner ctx _ (insideElse otherwise) >>= _) = _
    rw [statementsWith_of_isAbsent noElse]
    rfl

theorem Wrapping.statements (wraps : Wrapping c w) (inner : Normalizer) (ctx : Context) :
    Rules.statements inner ctx (w.slot 0) = (inner ctx c).map ([·]) := by
  cases wraps with
  | paren only => exact only.statementsWith inner ctx _
  | begin only noRescue noElse noEnsure =>
    exact only.bodyStatements noRescue noElse noEnsure inner ctx

/-- Both wrappings are given to a rule that makes a body of what they hold. -/
theorem Wrapping.exists_rule (wraps : Wrapping c w) :
    ∃ rule, rule? w.tag = some rule ∧ ∀ inner ctx, rule inner ctx w = bodyRule inner ctx w := by
  cases wraps with
  | paren only =>
    refine ⟨parenthesesRule, rfl, ?_⟩
    intro inner ctx
    cases only
    rfl
  | begin => exact ⟨bodyRule, rfl, fun _ _ => rfl⟩

/-- A wrapping adds nothing but a line. -/
theorem Wrapping.normalizeNode_eq (wraps : Wrapping c w) (ctx : Context) :
    normalizeNode ctx w = (normalizeNode ctx c).map (settle ctx w) := by
  obtain ⟨rule, found, same⟩ := wraps.exists_rule
  have isLocal : rule.LocalAt ctx w := by
    intro inner inner' agree
    rw [same, same, bodyRule, bodyRule, statements_congr agree ctx (Raw.Node.size_slot_lt w 0)]
  rw [normalizeNode_of_localAt found isLocal, same, bodyRule, wraps.statements]
  cases normalizeNode ctx c <;> rfl

theorem Nest.normalizeNode_eq (nest : Nest c w) (ctx : Context) :
    (normalizeNode ctx w).map Form.unlined = (normalizeNode ctx c).map Form.unlined := by
  induction nest with
  | bare => rfl
  | @wrap m w inside wraps ih =>
    rw [wraps.normalizeNode_eq, ← ih]
    cases normalizeNode ctx m with
    | error e => rfl
    | ok f => exact congrArg Except.ok (unlined_settle ctx w f)

/-! ### Conditions without their lines -/

/-- The condition with every line in it erased. -/
def Condition.unlined (t : Condition) : Condition :=
  ⟨t.expr.unlined, t.negated⟩

theorem isRegexp_unlined (f : Form) : isRegexp f.unlined = isRegexp f := by
  obtain ⟨tag, items, line, comments⟩ := f
  cases items with
  | nil => rfl
  | cons item rest => cases item <;> rfl

theorem unlined_ofForm_of_no_negation {f : Form}
    (plain : ∀ item, ¬ (f.tag = "not" ∧ f.items = [item])) :
    (Condition.ofForm f).unlined =
      ⟨if isRegexp f then Form.of "match" [f.unlined.toItem] else f.unlined, false⟩ := by
  rw [Condition.ofForm]
  split
  · rename_i isNot single
    exact absurd ⟨eq_of_beq isNot, single⟩ (plain _)
  · rename_i isNot single
    exact absurd ⟨eq_of_beq isNot, single⟩ (plain _)
  · split
    · simp [Condition.unlined, Item.unlinedAll, Form.toItem_unlined]
    · rfl

/-- Lines play no part in what a condition is made of. -/
theorem unlined_ofForm (f : Form) :
    (Condition.ofForm f).unlined = (Condition.ofForm f.unlined).unlined := by
  by_cases negation : ∃ item, f.tag = "not" ∧ f.items = [item]
  · obtain ⟨item, isNot, single⟩ := negation
    obtain ⟨tag, items, line, comments⟩ := f
    simp only at isNot single
    subst isNot single
    cases item with
    | node tag items line' comments' =>
      simp [Condition.ofForm, Condition.unlined, Form.is, Form.unlined, Item.unlinedAll,
        Item.unlined, Form.withLine, Item.unlinedAll_unlinedAll]
    | _ => rfl
  · have plain : ∀ item, ¬ (f.tag = "not" ∧ f.items = [item]) := by
      intro item isNegation
      exact negation ⟨item, isNegation⟩
    have plain' : ∀ item, ¬ (f.unlined.tag = "not" ∧ f.unlined.items = [item]) := by
      rintro item ⟨isNot, single⟩
      have one : f.items.length = 1 := by
        simpa [Form.unlined, Item.unlinedAll_eq_map] using congrArg List.length single
      obtain ⟨item', single'⟩ := List.length_eq_one_iff.1 one
      exact plain item' ⟨isNot, single'⟩
    rw [unlined_ofForm_of_no_negation plain, unlined_ofForm_of_no_negation plain',
      isRegexp_unlined, Form.unlined_unlined]

theorem unlined_ofForm_congr {f g : Form} (same : f.unlined = g.unlined) :
    (Condition.ofForm f).unlined = (Condition.ofForm g).unlined := by
  rw [unlined_ofForm f, same, ← unlined_ofForm g]

/-- Results that agree on what is looked at are used alike. -/
theorem bind_map_congr {α β γ δ : Type} {x y : Result α} {view : α → β} {f : α → Result γ}
    {look : γ → δ} (same : x.map view = y.map view)
    (next : ∀ a b, view a = view b → (f a).map look = (f b).map look) :
    (x >>= f).map look = (y >>= f).map look := by
  cases x with
  | error e =>
    cases y with
    | error e' =>
      cases same
      rfl
    | ok b => cases same
  | ok a =>
    cases y with
    | error e => cases same
    | ok b => exact next a b (Except.ok.inj same)

theorem unwrap?_of_wrapped? {n : Raw.Node} (noBody : n.wrapped? = none) : n.unwrap? = none := by
  rw [Raw.Node.unwrap?.eq_def]
  split
  · rfl
  · rename_i m found
    rw [noBody] at found
    cases found

theorem unwrap?_of_isRange {n : Raw.Node} (range : n.isRange = true) : n.unwrap? = none := by
  refine unwrap?_of_wrapped? ?_
  simp only [Raw.Node.isRange, Raw.Node.is, Bool.or_eq_true, beq_iff_eq] at range
  obtain isTag | isTag := range
  all_goals simp [Raw.Node.wrapped?, Raw.Node.wrappedBody?, Raw.Node.is, isTag]

/-- The condition that a node is itself, if no range is to be taken out of it. -/
theorem condition_of_not_isRange {n : Raw.Node} (same : conditionNode n = n)
    (plain : n.isRange = false) (ctx : Context) (flipFlop : Bool) :
    condition normalizeNode ctx flipFlop n = (normalizeNode ctx n).map Condition.ofForm := by
  simp only [condition, same, conditionForm, plain, Bool.and_false, Bool.false_eq_true, if_false]

/-- A wrapped condition is the condition itself. A range is taken out of the wrappings; any
other node is normalised with them. -/
theorem Nest.condition_eq (nest : Nest c w) (ctx : Context) (flipFlop : Bool) :
    (condition normalizeNode ctx flipFlop w).map Condition.unlined =
      (condition normalizeNode ctx flipFlop c).map Condition.unlined := by
  obtain rfl | outer := nest.unwrap?
  · rfl
  by_cases range : (c.unwrap?.getD c).isRange = true
  · have wrapped : conditionNode w = c.unwrap?.getD c := by
      simp only [conditionNode, outer, range, if_true]
    have bare : conditionNode c = c.unwrap?.getD c := by
      rw [conditionNode]
      cases inside : c.unwrap? with
      | none => rfl
      | some m =>
        rw [inside, Option.getD_some] at range
        simp only [range, if_true, Option.getD_some]
    rw [condition, condition, wrapped, bare]
  · have wrapped : conditionNode w = w := by
      simp only [conditionNode, outer, range, Bool.false_eq_true, if_false]
    have bare : conditionNode c = c := by
      rw [conditionNode]
      cases inside : c.unwrap? with
      | none => rfl
      | some m =>
        rw [inside, Option.getD_some] at range
        simp only [range, Bool.false_eq_true, if_false]
    have plainWrapped : w.isRange = false := by
      rw [← Bool.not_eq_true]
      intro isRange
      rw [unwrap?_of_isRange isRange] at outer
      cases outer
    have plainBare : c.isRange = false := by
      rw [← Bool.not_eq_true]
      intro isRange
      rw [unwrap?_of_isRange isRange] at range
      exact range isRange
    rw [condition_of_not_isRange wrapped plainWrapped, condition_of_not_isRange bare plainBare]
    have forms := nest.normalizeNode_eq ctx
    exact bind_map_congr (f := fun g => .ok (Condition.ofForm g)) forms
      (fun f g same => congrArg Except.ok (unlined_ofForm_congr same))

/-! ### Forms with a condition -/

/-- The forms with a condition, and whether a range in it is a flip-flop. -/
def conditionForms : List (String × Bool) :=
  [("if", true), ("unless", true), ("elsif", false), ("if_mod", true), ("unless_mod", true),
   ("ifop", false), ("while", true), ("until", true), ("while_mod", true), ("until_mod", true)]

/-- How a form with the given tag and further children uses its condition. -/
structure ConditionFrame (ctx : Context) (flipFlop : Bool) (tag : String) (rest : List Raw) where
  Parts : Type
  /-- The normal forms of the other children. -/
  parts : Result Parts
  /-- The normal form with the given condition. -/
  build : Condition → Parts → Form
  normalizeNode_eq : ∀ c : Raw.Node,
    (normalizeNode ctx ⟨tag, c.toRaw :: rest⟩).map Form.unlined =
      (condition normalizeNode ctx flipFlop c >>= fun t => parts.map (build t)).map Form.unlined
  unlined_build : ∀ t u x, t.unlined = u.unlined → (build t x).unlined = (build u x).unlined
  head?_build : ∀ t x, (build t x).items.head? = some t.expr.toItem

namespace ConditionFrame

variable {ctx : Context} {flipFlop : Bool} {tag : String} {rest : List Raw} {c : Raw.Node}

/-- A form has a normal form just if its condition and its other parts have. -/
theorem exists_of_normalizeNode (frame : ConditionFrame ctx flipFlop tag rest) {f : Form}
    (normal : normalizeNode ctx ⟨tag, c.toRaw :: rest⟩ = .ok f) :
    ∃ t x, condition normalizeNode ctx flipFlop c = .ok t ∧ frame.parts = .ok x ∧
      f.unlined = (frame.build t x).unlined := by
  have made := frame.normalizeNode_eq c
  rw [normal] at made
  obtain ⟨g, isForm, same⟩ := map_eq_ok.1 made.symm
  obtain ⟨t, isCondition, rest⟩ := bind_eq_ok.1 isForm
  obtain ⟨x, isParts, rfl⟩ := map_eq_ok.1 rest
  exact ⟨t, x, isCondition, isParts, same.symm⟩

theorem exists_normalizeNode (frame : ConditionFrame ctx flipFlop tag rest) {t : Condition}
    {x : frame.Parts} (isCondition : condition normalizeNode ctx flipFlop c = .ok t)
    (isParts : frame.parts = .ok x) : ∃ f, normalizeNode ctx ⟨tag, c.toRaw :: rest⟩ = .ok f := by
  have made := frame.normalizeNode_eq c
  rw [isCondition, ok_bind, isParts] at made
  obtain ⟨f, normal, -⟩ := map_eq_ok.1 made
  exact ⟨f, normal⟩

theorem head?_unlined_build (frame : ConditionFrame ctx flipFlop tag rest) (t : Condition)
    (x : frame.Parts) :
    (frame.build t x).unlined.items.head? = some t.unlined.expr.toItem := by
  have head := frame.head?_build t x
  change (Item.unlinedAll (frame.build t x).items).head? = _
  rw [Item.unlinedAll_eq_map, List.head?_map, head, Option.map_some, Form.toItem_unlined]
  rfl

end ConditionFrame

theorem unlined_branch {t u : Condition} (same : t.unlined = u.unlined) (swap : Bool)
    (yes no : Option Form) : (branch t swap yes no).unlined = (branch u swap yes no).unlined := by
  obtain ⟨exprs, negations⟩ := Condition.mk.inj same
  have items := congrArg Form.toItem exprs
  rw [← Form.toItem_unlined, ← Form.toItem_unlined] at items
  simp only [branch, negations]
  split <;> simp only [Form.unlined_of, Item.unlinedAll, items]

theorem head?_branch (t : Condition) (swap : Bool) (yes no : Option Form) :
    (branch t swap yes no).items.head? = some t.expr.toItem := by
  rw [branch]
  split <;> rfl

/-- A loop with the given condition. -/
def loopForm (isUntil : Bool) (t : Condition) (rest : List Item) : Form :=
  .of (loopTag isUntil t) (t.expr.toItem :: rest)

theorem unlined_loopForm {t u : Condition} (same : t.unlined = u.unlined) (isUntil : Bool)
    (rest : List Item) : (loopForm isUntil t rest).unlined = (loopForm isUntil u rest).unlined := by
  obtain ⟨exprs, negations⟩ := Condition.mk.inj same
  have items := congrArg Form.toItem exprs
  rw [← Form.toItem_unlined, ← Form.toItem_unlined] at items
  simp only [loopForm, loopTag, negations, Form.unlined_of, Item.unlinedAll, items]

section Frames

variable {ctx : Context} {tag : String} {flipFlop : Bool} {rest : List Raw} {rule : Rule}

theorem map_unlined_normalizeNode {n : Raw.Node} (found : rule? n.tag = some rule)
    (isLocal : rule.LocalAt ctx n) :
    (normalizeNode ctx n).map Form.unlined = (rule normalizeNode ctx n).map Form.unlined := by
  rw [normalizeNode_of_localAt found isLocal]
  cases rule normalizeNode ctx n with
  | error e => rfl
  | ok f => exact congrArg Except.ok (unlined_settle ctx n f)

/-- The frame of a rule that makes branches on its condition. -/
def branchFrame (swap : Bool) (found : rule? tag = some rule)
    (isLocal : ∀ c : Raw.Node, rule.LocalAt ctx ⟨tag, c.toRaw :: rest⟩)
    (parts : Result (Option Form × Option Form))
    (reads : ∀ c : Raw.Node, rule normalizeNode ctx ⟨tag, c.toRaw :: rest⟩ =
      condition normalizeNode ctx flipFlop c >>= fun t =>
        parts.map fun p => branch t swap p.1 p.2) :
    ConditionFrame ctx flipFlop tag rest where
  Parts := Option Form × Option Form
  parts := parts
  build t p := branch t swap p.1 p.2
  normalizeNode_eq c := by rw [map_unlined_normalizeNode found (isLocal c), reads]
  unlined_build _ _ p same := unlined_branch same swap p.1 p.2
  head?_build t p := head?_branch t swap p.1 p.2

/-- The frame of a rule that makes a loop on its condition. -/
def loopFrame (isUntil : Bool) (found : rule? tag = some rule)
    (isLocal : ∀ c : Raw.Node, rule.LocalAt ctx ⟨tag, c.toRaw :: rest⟩)
    (parts : Result (List Item))
    (reads : ∀ c : Raw.Node, rule normalizeNode ctx ⟨tag, c.toRaw :: rest⟩ =
      condition normalizeNode ctx flipFlop c >>= fun t => parts.map (loopForm isUntil t)) :
    ConditionFrame ctx flipFlop tag rest where
  Parts := List Item
  parts := parts
  build t items := loopForm isUntil t items
  normalizeNode_eq c := by rw [map_unlined_normalizeNode found (isLocal c), reads]
  unlined_build _ _ items same := unlined_loopForm same isUntil items
  head?_build _ _ := rfl

theorem bind_bind_eq_map {α β γ δ : Type} (x : Result α) (y : α → Result β) (pair : α → β → γ)
    (g : γ → δ) :
    (do let a ← x; let b ← y a; return g (pair a b)) =
      (do let a ← x; let b ← y a; return pair a b).map g := by
  cases x with
  | error e => rfl
  | ok a =>
    change (y a >>= _) = Except.map g (y a >>= _)
    cases y a <;> rfl

/-- The frame of `if`, `unless` and `elsif`. -/
def conditionalFrame (swap : Bool) (found : rule? tag = some (conditional flipFlop swap)) :
    ConditionFrame ctx flipFlop tag rest :=
  branchFrame swap found
    (fun c _ _ agree => conditional_congr agree ctx _ _ (Nat.le_refl _))
    (do
      let yes ← body normalizeNode ctx (rest.getD 0 .nil)
      let no ← otherwise normalizeNode ctx (rest.getD 1 .nil)
      return (yes, no))
    (by
      intro c
      change (condition normalizeNode ctx flipFlop c >>= _) = _
      refine bind_congr_ok rfl ?_
      intro t _
      exact bind_bind_eq_map (body normalizeNode ctx (rest.getD 0 .nil))
        (fun _ => otherwise normalizeNode ctx (rest.getD 1 .nil)) Prod.mk
        (fun p => branch t swap p.1 p.2))

/-- The frame of a statement before `if` or `unless`. -/
def modifierFrame (swap : Bool) (found : rule? tag = some (modifier swap)) :
    ConditionFrame ctx true tag rest :=
  branchFrame swap found
    (fun c _ _ agree => modifier_congr agree ctx _ (Nat.le_refl _))
    ((value? normalizeNode ctx (rest.getD 0 .nil)).map fun statement => (statement, none))
    (by
      intro c
      change (condition normalizeNode ctx true c >>= _) = _
      refine bind_congr_ok rfl ?_
      intro t _
      change (value? normalizeNode ctx (rest.getD 0 .nil) >>= _) = _
      cases value? normalizeNode ctx (rest.getD 0 .nil) <;> rfl)

/-- The frame of `a ? b : c`. -/
def ternaryFrame (found : rule? tag = some ternary) : ConditionFrame ctx false tag rest :=
  branchFrame false found
    (fun c _ _ agree => ternary_congr agree ctx (Nat.le_refl _))
    (do
      let yes ← value? normalizeNode ctx (rest.getD 0 .nil)
      let no ← value? normalizeNode ctx (rest.getD 1 .nil)
      return (yes, no))
    (by
      intro c
      change (condition normalizeNode ctx false c >>= _) = _
      refine bind_congr_ok rfl ?_
      intro t _
      exact bind_bind_eq_map (value? normalizeNode ctx (rest.getD 0 .nil))
        (fun _ => value? normalizeNode ctx (rest.getD 1 .nil)) Prod.mk
        (fun p => branch t false p.1 p.2))

/-- The frame of `while` and `until` before a body. -/
def prefixLoopFrame (isUntil : Bool) (found : rule? tag = some (loop isUntil)) :
    ConditionFrame ctx true tag rest :=
  loopFrame isUntil found
    (fun c _ _ agree => loop_congr agree ctx _ (Nat.le_refl _))
    ((body normalizeNode ctx (rest.getD 0 .nil)).map fun inside =>
      [Form.itemOf inside, .bool true])
    (by
      intro c
      change (condition normalizeNode ctx true c >>= _) = _
      refine bind_congr_ok rfl ?_
      intro t _
      change (body normalizeNode ctx (rest.getD 0 .nil) >>= _) = _
      cases body normalizeNode ctx (rest.getD 0 .nil) <;> rfl)

/-- The frame of a statement before `while` or `until`. The statement is the second child,
whatever the first one is. -/
def postfixLoopFrame (isUntil : Bool) (found : rule? tag = some (postfixLoop isUntil)) :
    ConditionFrame ctx true tag rest :=
  loopFrame isUntil found
    (fun c _ _ agree => postfixLoop_congr agree ctx _ (Nat.le_refl _))
    (do
      let statement ← Raw.Node.nodeAt ⟨tag, .nil :: rest⟩ 1
      let inside ← normalizeNode ctx statement
      return [inside.toItem, .bool (!statement.is "begin")])
    (by
      intro c
      change (condition normalizeNode ctx true c >>= _) = _
      refine bind_congr_ok rfl ?_
      intro t _
      exact bind_bind_eq_map (Raw.Node.nodeAt ⟨tag, .nil :: rest⟩ 1) (normalizeNode ctx)
        (fun statement inside => [inside.toItem, .bool (!statement.is "begin")])
        (loopForm isUntil t))

/-- Every form with a condition has a frame. -/
theorem nonempty_frame (ctx : Context) (rest : List Raw) (form : (tag, flipFlop) ∈ conditionForms) :
    Nonempty (ConditionFrame ctx flipFlop tag rest) := by
  simp only [conditionForms, List.mem_cons, Prod.mk.injEq, List.not_mem_nil, or_false] at form
  obtain ⟨rfl, rfl⟩ | ⟨rfl, rfl⟩ | ⟨rfl, rfl⟩ | ⟨rfl, rfl⟩ | ⟨rfl, rfl⟩ | ⟨rfl, rfl⟩ | ⟨rfl, rfl⟩ |
    ⟨rfl, rfl⟩ | ⟨rfl, rfl⟩ | ⟨rfl, rfl⟩ := form
  · exact ⟨conditionalFrame false rfl⟩
  · exact ⟨conditionalFrame true rfl⟩
  · exact ⟨conditionalFrame false rfl⟩
  · exact ⟨modifierFrame false rfl⟩
  · exact ⟨modifierFrame true rfl⟩
  · exact ⟨ternaryFrame rfl⟩
  · exact ⟨prefixLoopFrame false rfl⟩
  · exact ⟨prefixLoopFrame true rfl⟩
  · exact ⟨postfixLoopFrame false rfl⟩
  · exact ⟨postfixLoopFrame true rfl⟩

end Frames

/-! ### Wrapped conditions -/

/-- What a range becomes as a condition. -/
def rangeTest (flipFlop : Bool) (c : Raw.Node) (first last : Option Form) : Form :=
  if flipFlop then
    .of (if c.is "dot2" then "flip2" else "flip3") [Form.itemOf first, Form.itemOf last]
  else range (c.is "dot3") first last

theorem ofForm_rangeTest (flipFlop : Bool) (c : Raw.Node) (first last : Option Form) :
    Condition.ofForm (rangeTest flipFlop c first last) =
      ⟨rangeTest flipFlop c first last, false⟩ := by
  have plain (tag : String) (items : List Item) (line : Option Nat) (notNot : tag ≠ "not")
      (notRegexp : isRegexp ⟨tag, items, line, none⟩ = false) :
      Condition.ofForm ⟨tag, items, line, none⟩ = ⟨⟨tag, items, line, none⟩, false⟩ := by
    simp [Condition.ofForm, Form.is, notNot, notRegexp]
  rw [rangeTest]
  split
  · split <;> exact plain _ _ _ (by decide) rfl
  · rw [range]
    split
    · exact plain "lit" _ _ (by decide) rfl
    · split <;> exact plain _ _ _ (by decide) rfl

theorem conditionForm_range {c : Raw.Node} (isRange : c.isRange = true) (ctx : Context)
    (flipFlop : Bool) :
    (conditionForm normalizeNode ctx flipFlop c).map Form.unlined =
      Except.map Form.unlined (do
        let first ← value? normalizeNode ctx (c.slot 0)
        let last ← value? normalizeNode ctx (c.slot 1)
        return rangeTest flipFlop c first last) := by
  cases flipFlop with
  | true =>
    simp only [conditionForm, isRange, Bool.and_self, if_true]
    rfl
  | false =>
    have found : rule? c.tag = some (rangeRule (c.is "dot3")) := by
      simp only [Raw.Node.isRange, Bool.or_eq_true] at isRange
      obtain isTag | isTag := isRange <;> rw [Raw.Node.is, eq_of_beq isTag] <;> rfl
    have isLocal : (rangeRule (c.is "dot3")).LocalAt ctx c := by
      intro inner inner' agree
      simp only [rangeRule, value?_congr agree ctx (Raw.Node.size_slot_lt c 0),
        value?_congr agree ctx (Raw.Node.size_slot_lt c 1)]
    rw [conditionForm, Bool.false_and, if_neg (by decide), map_unlined_normalizeNode found isLocal]
    rfl

/-- A range as a condition is made of its ends, and fails only where these do. -/
theorem condition_range {c : Raw.Node} (isRange : c.isRange = true) (ctx : Context)
    (flipFlop : Bool) :
    (condition normalizeNode ctx flipFlop c).map Condition.unlined =
      Except.map Condition.unlined (do
        let first ← value? normalizeNode ctx (c.slot 0)
        let last ← value? normalizeNode ctx (c.slot 1)
        return ⟨rangeTest flipFlop c first last, false⟩) := by
  have same : conditionNode c = c := by rw [conditionNode, unwrap?_of_isRange isRange]
  rw [condition, same]
  calc
    _ = Except.map Condition.unlined (Except.map Condition.ofForm (do
          let first ← value? normalizeNode ctx (c.slot 0)
          let last ← value? normalizeNode ctx (c.slot 1)
          return rangeTest flipFlop c first last)) :=
      bind_map_congr (f := fun g => .ok (Condition.ofForm g)) (conditionForm_range isRange ctx _)
        (fun f g same => congrArg Except.ok (unlined_ofForm_congr same))
    _ = _ := by
      cases value? normalizeNode ctx (c.slot 0) with
      | error e => rfl
      | ok first =>
        cases value? normalizeNode ctx (c.slot 1) with
        | error e => rfl
        | ok last =>
          exact congrArg (fun t => Except.ok (Condition.unlined t))
            (ofForm_rangeTest flipFlop c first last)

/-- An integer literal is recognised as such if its value fits 128 bits. -/
theorem integerLiteral?_eq {f : Form} {a : Int} (isLiteral : f.unlined = literal (.ofInteger a)) :
    integerLiteral? (some f) = if Number.fits128 a then some a else none := by
  obtain ⟨tag, items, line, comments⟩ := f
  simp only [Form.unlined, literal, Form.of, Form.mk.injEq] at isLiteral
  obtain ⟨rfl, items_eq, -, -⟩ := isLiteral
  cases items with
  | nil => cases items_eq
  | cons item rest =>
    obtain ⟨first, -⟩ := List.cons.inj items_eq
    rw [Item.ofInteger] at first
    split at first <;> rename_i fits
    · cases item <;> cases first
      simp [integerLiteral?, Form.is, fits]
    · cases item <;> cases first
      simp [integerLiteral?, Form.is, fits]

/-- Two integers of at most 128 bits are folded into a range literal; a wider one is not. -/
theorem range_literal {first last : Form} {a b : Int} (exclusive : Bool)
    (isFirst : first.unlined = literal (.ofInteger a))
    (isLast : last.unlined = literal (.ofInteger b)) :
    (range exclusive (some first) (some last)).unlined =
      if Number.fits128 a && Number.fits128 b then literal (.range a b exclusive)
      else .of (if exclusive then "dot3" else "dot2")
        [(literal (.ofInteger a)).toItem, (literal (.ofInteger b)).toItem] := by
  have items : Item.unlinedAll [Form.itemOf (some first), Form.itemOf (some last)] =
      [(literal (.ofInteger a)).toItem, (literal (.ofInteger b)).toItem] := by
    simp only [Item.unlinedAll, Form.itemOf, Form.toItem_unlined, isFirst, isLast]
  rw [range, integerLiteral?_eq isFirst, integerLiteral?_eq isLast]
  by_cases fitsFirst : Number.fits128 a = true <;> by_cases fitsLast : Number.fits128 b = true
  · simp only [fitsFirst, fitsLast, if_true, Bool.and_self]
    rfl
  all_goals
    simp only [fitsFirst, fitsLast, Bool.false_eq_true, if_true, if_false, Bool.and_false,
      Bool.false_and, Form.unlined_of, items]

/-- Wrappings around the condition of a form change nothing: neither the normal form nor the
error, if there is none.

A range, however deep in wrappings, becomes a flip-flop over its normal ends, or stays a range
after `elsif` and in `a ? b : c`. It has a normal form there if its ends have one and the form
has one with any condition at all. A range between two integer literals is a literal itself if
both fit 128 bits. -/
theorem normalizeNode_wrapped_condition (ctx : Context) {tag : String} {flipFlop : Bool}
    (form : (tag, flipFlop) ∈ conditionForms) {c w : Raw.Node} (nest : Nest c w)
    (rest : List Raw) :
    (normalizeNode ctx ⟨tag, w.toRaw :: rest⟩).map Form.unlined =
      (normalizeNode ctx ⟨tag, c.toRaw :: rest⟩).map Form.unlined ∧
    (c.isRange = true →
      (∀ f, normalizeNode ctx ⟨tag, w.toRaw :: rest⟩ = .ok f →
        ∃ first last, value? normalizeNode ctx (c.slot 0) = .ok first ∧
          value? normalizeNode ctx (c.slot 1) = .ok last ∧
          f.unlined.items.head? = some (rangeTest flipFlop c first last).unlined.toItem) ∧
      (∀ first last, value? normalizeNode ctx (c.slot 0) = .ok first →
        value? normalizeNode ctx (c.slot 1) = .ok last →
        (∃ other f, normalizeNode ctx ⟨tag, Raw.Node.toRaw other :: rest⟩ = .ok f) →
        ∃ f, normalizeNode ctx ⟨tag, w.toRaw :: rest⟩ = .ok f)) ∧
    ∀ (first last : Form) (a b : Int), first.unlined = literal (.ofInteger a) →
      last.unlined = literal (.ofInteger b) →
      (rangeTest false c (some first) (some last)).unlined =
        if Number.fits128 a && Number.fits128 b then literal (.range a b (c.is "dot3"))
        else .of (if c.is "dot3" then "dot3" else "dot2")
          [(literal (.ofInteger a)).toItem, (literal (.ofInteger b)).toItem] := by
  obtain ⟨frame⟩ := nonempty_frame ctx rest form
  refine ⟨?_, ?_, ?_⟩
  · rw [frame.normalizeNode_eq, frame.normalizeNode_eq]
    refine bind_map_congr (nest.condition_eq ctx flipFlop) ?_
    intro t u same
    cases frame.parts with
    | error e => rfl
    | ok x => exact congrArg Except.ok (frame.unlined_build t u x same)
  · intro isRange
    have ends := (nest.condition_eq ctx flipFlop).trans (condition_range isRange ctx flipFlop)
    constructor
    · intro f normal
      obtain ⟨t, x, isCondition, -, same⟩ := frame.exists_of_normalizeNode normal
      rw [isCondition] at ends
      obtain ⟨u, made, conditions⟩ := map_eq_ok.1 ends.symm
      obtain ⟨first, isFirst, made⟩ := bind_eq_ok.1 made
      obtain ⟨last, isLast, made⟩ := bind_eq_ok.1 made
      cases made
      refine ⟨first, last, isFirst, isLast, ?_⟩
      rw [same, frame.head?_unlined_build, ← conditions]
      rfl
    · rintro first last isFirst isLast ⟨other, f, normal⟩
      obtain ⟨-, x, -, isParts, -⟩ := frame.exists_of_normalizeNode normal
      rw [isFirst, ok_bind, isLast, ok_bind] at ends
      obtain ⟨t, isCondition, -⟩ := map_eq_ok.1 ends
      exact frame.exists_normalizeNode isCondition isParts
  · intro first last a b isFirst isLast
    exact range_literal (c.is "dot3") isFirst isLast

/-- `begin; (a..b) end`. -/
def wrappedRange : Raw.Node :=
  ⟨"begin", [.node "bodystmt"
    [.node Raw.listTag [.node "void_stmt" [],
      .node "paren" [.node Raw.listTag [.node "dot2" [bareCall "a", bareCall "b"], .bool false]]],
     .nil, .bool false, .nil]]⟩

theorem while_wrappedRange_flips :
    ∃ f, normalizeNode exampleContext ⟨"while", [wrappedRange.toRaw, bareCall "c"]⟩ = .ok f ∧
      f.unlined.items.head? = some (.node "flip2"
        [.node "call" [.nil, .sym "a"] none none, .node "call" [.nil, .sym "b"] none none]
        none none) := by
  have only : HoldsOnly ⟨"dot2", [bareCall "a", bareCall "b"]⟩
      (.node Raw.listTag [.node "dot2" [bareCall "a", bareCall "b"], .bool false]) :=
    .list [] [.bool false] (by decide) rfl rfl
  have outer : HoldsOnly ⟨"paren", [.node Raw.listTag
        [.node "dot2" [bareCall "a", bareCall "b"], .bool false]]⟩
      (.node Raw.listTag [.node "void_stmt" [], .node "paren" [.node Raw.listTag
        [.node "dot2" [bareCall "a", bareCall "b"], .bool false]]]) :=
    .list [.node "void_stmt" []] [] (by decide) rfl rfl
  have nest : Nest ⟨"dot2", [bareCall "a", bareCall "b"]⟩ wrappedRange :=
    .wrap (.wrap .bare (.paren only)) (.begin outer rfl rfl rfl)
  have form : ("while", true) ∈ conditionForms := by decide
  have normal : ∃ f, normalizeNode exampleContext
      ⟨"while", [wrappedRange.toRaw, bareCall "c"]⟩ = .ok f := ⟨_, by with_unfolding_all rfl⟩
  obtain ⟨f, isNormal⟩ := normal
  obtain ⟨first, last, isFirst, isLast, head⟩ :=
    ((normalizeNode_wrapped_condition exampleContext form nest _).2.1 rfl).1 f isNormal
  have firstCall : value? normalizeNode exampleContext (bareCall "a") =
      .ok (some ⟨"call", [.nil, .sym "a"], some 1, none⟩) := by
    with_unfolding_all rfl
  have lastCall : value? normalizeNode exampleContext (bareCall "b") =
      .ok (some ⟨"call", [.nil, .sym "b"], some 1, none⟩) := by
    with_unfolding_all rfl
  cases isFirst.symm.trans firstCall
  cases isLast.symm.trans lastCall
  exact ⟨f, isNormal, head⟩

/-- `1..170141183460469231731687303715884105728`. -/
def wideRange : Raw.Node :=
  ⟨"dot2", [.node "@int" [.str "1", .pos 1 0],
    .node "@int" [.str "170141183460469231731687303715884105728", .pos 1 3]]⟩

/-- A range stays a node if one of its ends, though an integer literal, takes more than 128
bits. -/
theorem not_literal_of_wide_end :
    ¬ ∀ (ctx : Context) (c : Raw.Node) (rest : List Raw) (f first last : Form) (a b : Int),
      c.isRange = true → value? normalizeNode ctx (c.slot 0) = .ok (some first) →
      value? normalizeNode ctx (c.slot 1) = .ok (some last) →
      first.unlined = literal (.ofInteger a) → last.unlined = literal (.ofInteger b) →
      normalizeNode ctx ⟨"ifop", c.toRaw :: rest⟩ = .ok f →
      f.unlined.items.head? = some (literal (.range a b (c.is "dot3"))).toItem := by
  intro claimed
  have isFirst : value? normalizeNode exampleContext (wideRange.slot 0) =
      .ok (some ⟨"lit", [.ofInteger 1], some 1, none⟩) := by
    with_unfolding_all rfl
  have isLast : value? normalizeNode exampleContext (wideRange.slot 1) =
      .ok (some ⟨"lit", [.ofInteger 170141183460469231731687303715884105728], some 1, none⟩) := by
    with_unfolding_all rfl
  have normal : normalizeNode exampleContext
      ⟨"ifop", [wideRange.toRaw, bareCall "a", bareCall "b"]⟩ =
      .ok ⟨"if", [.node "dot2" [.node "lit" [.ofInteger 1] (some 1) none,
          .node "lit" [.ofInteger 170141183460469231731687303715884105728] (some 1) none]
          (some 1) none,
        .node "call" [.nil, .sym "a"] (some 1) none, .node "call" [.nil, .sym "b"] (some 1) none],
        some 1, none⟩ := by
    with_unfolding_all rfl
  have folded := claimed exampleContext wideRange _ _ _ _ 1
    170141183460469231731687303715884105728 rfl isFirst isLast rfl rfl normal
  simp [Form.unlined, Form.toItem, Item.unlinedAll, Item.unlined, literal, Form.of] at folded

end Rules

end RubyNormalForm
