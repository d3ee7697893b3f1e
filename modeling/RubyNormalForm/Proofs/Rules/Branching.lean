import RubyNormalForm.Proofs.Rules.Locality
import RubyNormalForm.Proofs.Rules.Regularity

/-!
# Which branch runs

Conditionals are rewritten twice over: `unless` exchanges its branches, and so does a negated
match, which is replaced by the match itself. This module proves that the rewriting keeps
the choice. Conditions are given a truth value by an arbitrary valuation of normal forms; the
source form makes its tests one after the other and runs the body of the first that holds,
and the nested normal form, read with the same valuation, leads to that body after just as
many tests.
-/

namespace RubyNormalForm

open Rules

/-- A truth value for every expression. Lines are no part of an expression, and the negation
of an expression has the opposite value. -/
structure Valuation where
  truth : Form → Bool
  unlined : ∀ f, truth f.unlined = truth f
  negation : ∀ f g : Form, f.tag = "not" → f.items = [g.toItem] → truth f = !truth g

namespace Rules

/-! ### Conditions -/

/-- The expression that a condition tests, before a negation is taken off it. -/
def testedForm (f : Form) : Form :=
  if isRegexp f then (Form.of "match" [f.toItem]).withLine f.line else f

/-- The value that a condition node has in the source. -/
def sourceTruth (V : Valuation) (ctx : Context) (flipFlop : Bool) (c : Raw.Node) : Result Bool :=
  (conditionForm normalizeNode ctx flipFlop (conditionNode c)).map fun f =>
    V.truth (testedForm f)

theorem Valuation.truth_withLine (V : Valuation) (f : Form) (line : Option Nat) :
    V.truth (f.withLine line) = V.truth f := by
  rw [← V.unlined, Form.unlined_withLine, V.unlined]

/-- Taking the negation off a regular form turns its value around. -/
theorem truth_ofForm (V : Valuation) {encoding : Encoding} {f : Form}
    (regular : f.Regular encoding) :
    V.truth (testedForm f) =
      (V.truth (Condition.ofForm f).expr != (Condition.ofForm f).negated) := by
  rw [Condition.ofForm]
  split
  · rename_i tag items line comments isNot single
    have isTag : f.tag = "not" := eq_of_beq isNot
    have plain : testedForm f = f := by simp [testedForm, isRegexp, Form.is, isTag]
    rw [plain, Valuation.truth_withLine, V.negation f ⟨tag, items, line, comments⟩ isTag single]
    simp
  · rename_i item notNode isNot single
    have isNode := regular.negation (eq_of_beq isNot) item (by simp [single])
    cases item with
    | node tag items line comments => exact absurd rfl (notNode tag items line comments)
    | _ => cases isNode
  · rw [testedForm]
    split <;> simp

theorem conditionForm_regular (ctx : Context) (flipFlop : Bool) (n : Raw.Node) :
    Ensures (conditionForm normalizeNode ctx flipFlop n) (Form.Regular ctx.encoding) := by
  rw [conditionForm]
  split
  · simp only [ensures_bind, ensures_pure]
    apply Ensures.of_forall
    intro first
    apply Ensures.of_forall
    intro last
    apply Form.Ordinary.regular
    split <;> simp
  · exact normalizeNode_regular ctx n

/-- A condition with its negation off has the value of the source, turned around if it was
negated. -/
theorem sourceTruth_of_condition (V : Valuation) {ctx : Context} {flipFlop : Bool} {n : Raw.Node}
    {c : Condition} (found : condition normalizeNode ctx flipFlop n = .ok c) :
    sourceTruth V ctx flipFlop n = .ok (V.truth c.expr != c.negated) := by
  obtain ⟨f, form, rfl⟩ := map_eq_ok.1 found
  have regular := conditionForm_regular ctx flipFlop _ f form
  rw [sourceTruth, form]
  exact congrArg Except.ok (truth_ofForm V regular)

/-! ### The choice of a normal form -/

/-- What a nest of conditionals leads to after the given number of tests. -/
def descend (V : Valuation) : Nat → Item → Option Item
  | 0, item => some item
  | tests + 1, .node tag [.node condTag condItems condLine condComments, yes, no] _ _ =>
    if tag == "if" then
      descend V tests (if V.truth ⟨condTag, condItems, condLine, condComments⟩ then yes else no)
    else none
  | _ + 1, _ => none

/-- A branch leads to its first body just when the condition, turned around as often as the
branches are exchanged, holds. -/
theorem descend_branch (V : Valuation) (tests : Nat) (c : Condition) (swap : Bool)
    (yes no : Option Form) :
    descend V (tests + 1) (branch c swap yes no).unlined.toItem =
      descend V tests (Form.itemOf
        (if (V.truth c.expr != c.negated) != swap then yes else no)).unlined := by
  have truth : V.truth ⟨c.expr.tag, Item.unlinedAll c.expr.items, none, c.expr.comments⟩ =
      V.truth c.expr := V.unlined c.expr
  rw [branch]
  cases swap <;> cases c.negated <;> cases value : V.truth c.expr <;>
    simp [Form.unlined, Form.of, Form.toItem, Item.unlinedAll, Item.unlined, descend, truth, value]

/-! ### The choice of the source -/

/-- A choice: how many tests were made, and the body that runs. -/
structure Choice where
  tests : Nat
  body : Raw

/-- The choice that a conditional makes in the source: the body of the first clause whose
condition holds, or else what the `else` clause holds. If `inverted`, the first condition
must not hold instead. -/
def sourceChoice (V : Valuation) (ctx : Context) (flipFlop inverted : Bool) (n : Raw.Node) :
    Result Choice := do
  let holds ← sourceTruth V ctx flipFlop (← n.nodeAt 0)
  if holds != inverted then return ⟨1, n.slot 1⟩
  else
    match _h : (n.slot 2).node? with
    | some next =>
      if next.is "elsif" then
        let choice ← sourceChoice V ctx false false next
        return { choice with tests := choice.tests + 1 }
      else return ⟨1, insideElse (n.slot 2)⟩
    | none => return ⟨1, insideElse (n.slot 2)⟩
termination_by n.size
decreasing_by
  rw [Raw.Node.size_of_node? _h]
  exact Raw.Node.size_slot_lt n 2

theorem sourceChoice_first {V : Valuation} {ctx : Context} {flipFlop inverted holds : Bool}
    {n c : Raw.Node} (found : n.nodeAt 0 = .ok c)
    (truth : sourceTruth V ctx flipFlop c = .ok holds) (taken : (holds != inverted) = true) :
    sourceChoice V ctx flipFlop inverted n = .ok ⟨1, n.slot 1⟩ := by
  rw [sourceChoice, found, ok_bind, truth, ok_bind, if_pos taken]
  rfl

theorem sourceChoice_elsif {V : Valuation} {ctx : Context} {flipFlop inverted holds : Bool}
    {n c : Raw.Node} (found : n.nodeAt 0 = .ok c)
    (truth : sourceTruth V ctx flipFlop c = .ok holds) (left : (holds != inverted) = false)
    {children : List Raw} (next : n.slot 2 = .node "elsif" children) :
    sourceChoice V ctx flipFlop inverted n =
      (sourceChoice V ctx false false ⟨"elsif", children⟩).map
        fun choice => { choice with tests := choice.tests + 1 } := by
  rw [sourceChoice, found, ok_bind, truth, ok_bind, if_neg (by simp [left])]
  split
  · rename_i node isNode
    rw [next] at isNode
    cases isNode
    have isElsif : Raw.Node.is ⟨"elsif", children⟩ "elsif" = true := rfl
    rw [if_pos isElsif]
    cases sourceChoice V ctx false false ⟨"elsif", children⟩ <;> rfl
  · rename_i noNode
    rw [next] at noNode
    cases noNode

theorem sourceChoice_else {V : Valuation} {ctx : Context} {flipFlop inverted holds : Bool}
    {n c : Raw.Node} (found : n.nodeAt 0 = .ok c)
    (truth : sourceTruth V ctx flipFlop c = .ok holds) (left : (holds != inverted) = false)
    (last : ∀ children, n.slot 2 ≠ .node "elsif" children) :
    sourceChoice V ctx flipFlop inverted n = .ok ⟨1, insideElse (n.slot 2)⟩ := by
  rw [sourceChoice, found, ok_bind, truth, ok_bind, if_neg (by simp [left])]
  split
  · rename_i next isNode
    have notElsif : next.is "elsif" = false := by
      refine Bool.eq_false_iff.2 ?_
      intro isElsif
      cases slot : n.slot 2 with
      | node tag children =>
        rw [slot] at isNode
        cases isNode
        obtain rfl : tag = "elsif" := eq_of_beq isElsif
        exact last children slot
      | _ =>
        rw [slot] at isNode
        cases isNode
    rw [notElsif]
    rfl
  · rfl

/-- What follows the last clause of a chain is an `else` clause or nothing. -/
theorem otherwise_last (inner : Normalizer) (ctx : Context) {child : Raw}
    (last : ∀ children, child ≠ .node "elsif" children) :
    otherwise inner ctx child = elseBody inner ctx child := by
  cases child with
  | node tag children =>
    have notElsif : tag ≠ "elsif" := by
      rintro rfl
      exact last children rfl
    simp [otherwise, notElsif]
  | _ => rfl

/-- The rewriting keeps the choice: with the conditions valued alike, a chain of clauses and
the nest it becomes lead to the same body after the same number of tests. The induction is
on the chain, which the nest follows through the slot of what comes otherwise. -/
theorem conditional_keeps_choice (V : Valuation) (ctx : Context) (n : Raw.Node)
    (flipFlop inverted : Bool) (f : Form)
    (normal : conditional flipFlop inverted normalizeNode ctx n = .ok f) :
    ∃ choice inside, sourceChoice V ctx flipFlop inverted n = .ok choice ∧
      body normalizeNode ctx choice.body = .ok inside ∧
      descend V choice.tests f.unlined.toItem = some (Form.itemOf inside).unlined := by
  induction size : n.size using Nat.strongRecOn generalizing n flipFlop inverted f with
  | ind s ih =>
    subst size
    simp only [conditional, bind_eq_ok] at normal
    obtain ⟨node, found, c, isCondition, yes, isYes, no, isNo, made⟩ := normal
    cases made
    have truth := sourceTruth_of_condition V isCondition
    cases taken : (V.truth c.expr != c.negated) != inverted with
    | true =>
      refine ⟨_, yes, sourceChoice_first found truth taken, isYes, ?_⟩
      rw [descend_branch, taken]
      rfl
    | false =>
      have descends : ∀ tests, descend V (tests + 1) (branch c inverted yes no).unlined.toItem =
          descend V tests (Form.itemOf no).unlined := by
        intro tests
        rw [descend_branch, taken]
        rfl
      by_cases chained : ∃ children, n.slot 2 = .node "elsif" children
      · obtain ⟨children, next⟩ := chained
        rw [next] at isNo
        obtain ⟨g, isNext, rfl⟩ := map_eq_ok.1 isNo
        have isLocal : Rule.LocalAt (conditional false false) ctx ⟨"elsif", children⟩ := by
          intro inner inner' agree
          exact conditional_congr agree ctx false false (Nat.le_refl _)
        rw [normalizeNode_of_localAt rfl isLocal] at isNext
        obtain ⟨nested, isNested, rfl⟩ := map_eq_ok.1 isNext
        have smaller : Raw.Node.size ⟨"elsif", children⟩ < n.size := by
          have := Raw.Node.size_slot_lt n 2
          rw [next] at this
          exact this
        obtain ⟨choice, inside, chosen, isInside, leads⟩ :=
          ih _ smaller ⟨"elsif", children⟩ false false nested isNested rfl
        refine ⟨{ choice with tests := choice.tests + 1 }, inside, ?_, isInside, ?_⟩
        · rw [sourceChoice_elsif found truth taken next, chosen]
          rfl
        · rw [descends, Form.itemOf, Form.toItem_unlined, unlined_settle, leads]
      · have last : ∀ children, n.slot 2 ≠ .node "elsif" children := by
          intro children next
          exact chained ⟨children, next⟩
        rw [otherwise_last normalizeNode ctx last] at isNo
        exact ⟨_, no, sourceChoice_else found truth taken last, isNo, descends 0⟩

/-! ### Bodies without statements -/

/-- Whether a value stands for no statement in a list of statements. -/
def isVoidEntry : Raw → Bool
  | .node tag _ => tag == "void_stmt"
  | other => other.isAbsent

/-- Whether a value is a list of statements, or absent. -/
def isStatementBody : Raw → Bool
  | .node tag children => (Raw.Node.mk tag children).isStatements
  | other => other.isAbsent

/-- Whether a value is absent, or a list of statements with none in it. -/
def hasNoStatement : Raw → Bool
  | .node tag children => (Raw.Node.mk tag children).isStatements && children.all isVoidEntry
  | other => other.isAbsent

theorem listed_eq_nil {inner : Normalizer} {ctx : Context} {children : List Raw}
    {forms : List Form} (found : listed inner ctx children = .ok forms) :
    forms = [] ↔ children.all isVoidEntry = true := by
  induction children generalizing forms with
  | nil =>
    cases found
    simp
  | cons child rest ih =>
    cases child with
    | node tag inside =>
      simp only [listed] at found
      split at found
      · rename_i isVoid
        rw [ih found]
        simp [isVoidEntry, eq_of_beq isVoid]
      · rename_i notVoid
        simp only [bind_eq_ok] at found
        obtain ⟨form, -, forms', -, made⟩ := found
        cases made
        have present : isVoidEntry (.node tag inside) = false := by
          simpa [isVoidEntry] using notVoid
        simp [present]
    | _ =>
      simp only [listed] at found
      split at found
      · rename_i isAbsent
        rw [ih found]
        simp [isVoidEntry, isAbsent]
      · cases found

theorem wrap_eq_none {forms : List Form} : wrap forms = none ↔ forms = [] := by
  match forms with
  | [] => simp [wrap]
  | [_] => simp [wrap]
  | _ :: _ :: _ => simp [wrap]

/-- A list of statements gives no body just when it has no statement. -/
theorem body_eq_none {inner : Normalizer} {ctx : Context} {child : Raw} {inside : Option Form}
    (isBody : isStatementBody child = true) (found : body inner ctx child = .ok inside) :
    inside = none ↔ hasNoStatement child = true := by
  obtain ⟨forms, isForms, rfl⟩ := map_eq_ok.1 found
  rw [wrap_eq_none]
  cases child with
  | node tag children =>
    have list : statements inner ctx (.node tag children) = listed inner ctx children := by
      simp only [isStatementBody, Raw.Node.isStatements, Raw.Node.isList, Raw.Node.is,
        Bool.or_eq_true, beq_iff_eq] at isBody
      obtain rfl | rfl := isBody <;> rfl
    rw [list] at isForms
    have isList : (Raw.Node.mk tag children).isStatements = true := isBody
    rw [listed_eq_nil isForms, hasNoStatement, isList, Bool.true_and]
  | nil =>
    cases isForms
    simp [hasNoStatement, Raw.isAbsent]
  | bool b =>
    cases b with
    | false =>
      cases isForms
      simp [hasNoStatement, Raw.isAbsent]
    | true => cases isBody
  | _ => cases isBody

theorem value?_eq_none {inner : Normalizer} {ctx : Context} {child : Raw} {inside : Option Form}
    (found : value? inner ctx child = .ok inside) : inside = none ↔ child.isAbsent = true := by
  cases child with
  | node tag children =>
    obtain ⟨f, -, rfl⟩ := map_eq_ok.1 found
    simp [Raw.isAbsent]
  | _ =>
    simp only [value?] at found
    split at found
    · rename_i isAbsent
      cases found
      simpa using isAbsent
    · cases found

theorem itemOf_unlined_eq_nil {f : Option Form} :
    (Form.itemOf f).unlined = .nil ↔ f = none := by
  cases f with
  | none => simp [Form.itemOf, Item.unlined]
  | some f => simp [Form.itemOf, Form.toItem, Item.unlined]

/-! ### Conditionals around operands, and loops -/

/-- The operand that the source runs when it has just one test to make. -/
def sourceOperand (V : Valuation) (ctx : Context) (flipFlop inverted : Bool) (yes no : Raw)
    (n : Raw.Node) : Result Raw := do
  let holds ← sourceTruth V ctx flipFlop (← n.nodeAt 0)
  return if holds != inverted then yes else no

/-- A branch on a condition leads to the operand that the source runs. -/
theorem branch_keeps_operand {V : Valuation} {ctx : Context} {flipFlop inverted : Bool}
    {n node : Raw.Node} {c : Condition} {yes no : Raw} {yesForm noForm : Option Form}
    (found : n.nodeAt 0 = .ok node)
    (isCondition : condition normalizeNode ctx flipFlop node = .ok c)
    (isYes : value? normalizeNode ctx yes = .ok yesForm)
    (isNo : value? normalizeNode ctx no = .ok noForm) :
    ∃ operand inside, sourceOperand V ctx flipFlop inverted yes no n = .ok operand ∧
      value? normalizeNode ctx operand = .ok inside ∧
      descend V 1 (branch c inverted yesForm noForm).unlined.toItem =
        some (Form.itemOf inside).unlined := by
  have truth := sourceTruth_of_condition V isCondition
  have chosen : sourceOperand V ctx flipFlop inverted yes no n =
      .ok (if (V.truth c.expr != c.negated) != inverted then yes else no) := by
    rw [sourceOperand, found, ok_bind, truth, ok_bind]
    rfl
  cases taken : (V.truth c.expr != c.negated) != inverted with
  | true =>
    rw [taken] at chosen
    refine ⟨yes, yesForm, chosen, isYes, ?_⟩
    rw [descend_branch, taken]
    rfl
  | false =>
    rw [taken] at chosen
    refine ⟨no, noForm, chosen, isNo, ?_⟩
    rw [descend_branch, taken]
    rfl

theorem modifier_keeps_operand (V : Valuation) {ctx : Context} {inverted : Bool} {n : Raw.Node}
    {f : Form} (normal : modifier inverted normalizeNode ctx n = .ok f) :
    ∃ operand inside, sourceOperand V ctx true inverted (n.slot 1) .nil n = .ok operand ∧
      value? normalizeNode ctx operand = .ok inside ∧
      descend V 1 f.unlined.toItem = some (Form.itemOf inside).unlined := by
  simp only [modifier, bind_eq_ok] at normal
  obtain ⟨node, found, c, isCondition, statement, isStatement, made⟩ := normal
  cases made
  exact branch_keeps_operand found isCondition isStatement rfl

theorem ternary_keeps_operand (V : Valuation) {ctx : Context} {n : Raw.Node} {f : Form}
    (normal : ternary normalizeNode ctx n = .ok f) :
    ∃ operand inside, sourceOperand V ctx false false (n.slot 1) (n.slot 2) n = .ok operand ∧
      value? normalizeNode ctx operand = .ok inside ∧
      descend V 1 f.unlined.toItem = some (Form.itemOf inside).unlined := by
  simp only [ternary, bind_eq_ok] at normal
  obtain ⟨node, found, c, isCondition, yes, isYes, no, isNo, made⟩ := normal
  cases made
  exact branch_keeps_operand found isCondition isYes isNo

/-- Whether a loop goes on: a `while` loop as long as its condition holds, an `until` loop as
long as it does not. -/
def continues (V : Valuation) (f : Form) : Option Bool :=
  match f.items with
  | .node tag items line comments :: _ =>
    if f.is "while" then some (V.truth ⟨tag, items, line, comments⟩)
    else if f.is "until" then some (!V.truth ⟨tag, items, line, comments⟩)
    else none
  | _ => none

/-- A loop goes on with its condition just when the source does. -/
theorem continues_loop {V : Valuation} {ctx : Context} {node : Raw.Node} {c : Condition}
    (isCondition : condition normalizeNode ctx true node = .ok c) (isUntil : Bool)
    (rest : List Item) :
    ∃ holds, sourceTruth V ctx true node = .ok holds ∧
      continues V (Form.of (loopTag isUntil c) (c.expr.toItem :: rest)).unlined =
        some (holds != isUntil) := by
  refine ⟨_, sourceTruth_of_condition V isCondition, ?_⟩
  have truth : V.truth ⟨c.expr.tag, Item.unlinedAll c.expr.items, none, c.expr.comments⟩ =
      V.truth c.expr := V.unlined c.expr
  rw [loopTag]
  cases isUntil <;> cases c.negated <;> cases value : V.truth c.expr <;>
    simp [continues, Form.unlined, Form.of, Form.is, Form.toItem, Item.unlinedAll, Item.unlined,
      truth, value]

theorem loop_keeps_test (V : Valuation) {ctx : Context} {isUntil : Bool} {n : Raw.Node} {f : Form}
    (normal : loop isUntil normalizeNode ctx n = .ok f) :
    ∃ node holds, n.nodeAt 0 = .ok node ∧ sourceTruth V ctx true node = .ok holds ∧
      continues V f.unlined = some (holds != isUntil) := by
  simp only [loop, bind_eq_ok] at normal
  obtain ⟨node, found, c, isCondition, inside, -, made⟩ := normal
  cases made
  obtain ⟨holds, truth, goes⟩ := continues_loop (V := V) isCondition isUntil _
  exact ⟨node, holds, found, truth, goes⟩

theorem postfixLoop_keeps_test (V : Valuation) {ctx : Context} {isUntil : Bool} {n : Raw.Node}
    {f : Form} (normal : postfixLoop isUntil normalizeNode ctx n = .ok f) :
    ∃ node holds, n.nodeAt 0 = .ok node ∧ sourceTruth V ctx true node = .ok holds ∧
      continues V f.unlined = some (holds != isUntil) := by
  simp only [postfixLoop, bind_eq_ok] at normal
  obtain ⟨node, found, c, isCondition, statement, -, inside, -, made⟩ := normal
  cases made
  obtain ⟨holds, truth, goes⟩ := continues_loop (V := V) isCondition isUntil _
  exact ⟨node, holds, found, truth, goes⟩

/-! ### All forms of choice -/

/-- The result of a rule, lines apart, behind a normal form. -/
theorem exists_of_localAt {rule : Rule} {ctx : Context} {n : Raw.Node} {f : Form}
    (found : rule? n.tag = some rule) (isLocal : rule.LocalAt ctx n)
    (normal : normalizeNode ctx n = .ok f) :
    ∃ g, rule normalizeNode ctx n = .ok g ∧ f.unlined = g.unlined := by
  rw [normalizeNode_of_localAt found isLocal] at normal
  obtain ⟨g, made, rfl⟩ := map_eq_ok.1 normal
  exact ⟨g, made, unlined_settle ctx n g⟩

/-- The rewriting of conditions keeps the choice, for every valuation and every node that has
a normal form.

An `if` or `unless` with its chain of further clauses becomes a nest of conditionals that
leads, after as many tests as the source makes, to the normal form of the body that the source
runs; where that body is a list of statements or absent, the slot is empty just when there is
no statement. A conditional around operands leads to the operand that the source takes, and
its slot is empty just when that operand is absent. A loop goes on just when the source
does. -/
theorem normalizeNode_keeps_choice (V : Valuation) {ctx : Context} {n : Raw.Node} {f : Form}
    (normal : normalizeNode ctx n = .ok f) :
    (n.tag = "if" ∨ n.tag = "unless" →
      ∃ choice inside, sourceChoice V ctx true (n.is "unless") n = .ok choice ∧
        body normalizeNode ctx choice.body = .ok inside ∧
        descend V choice.tests f.unlined.toItem = some (Form.itemOf inside).unlined ∧
        (isStatementBody choice.body = true →
          (descend V choice.tests f.unlined.toItem = some .nil ↔
            hasNoStatement choice.body = true))) ∧
    (n.tag = "if_mod" ∨ n.tag = "unless_mod" →
      ∃ operand inside,
        sourceOperand V ctx true (n.is "unless_mod") (n.slot 1) .nil n = .ok operand ∧
        value? normalizeNode ctx operand = .ok inside ∧
        descend V 1 f.unlined.toItem = some (Form.itemOf inside).unlined ∧
        (descend V 1 f.unlined.toItem = some .nil ↔ operand.isAbsent = true)) ∧
    (n.tag = "ifop" →
      ∃ operand inside,
        sourceOperand V ctx false false (n.slot 1) (n.slot 2) n = .ok operand ∧
        value? normalizeNode ctx operand = .ok inside ∧
        descend V 1 f.unlined.toItem = some (Form.itemOf inside).unlined ∧
        (descend V 1 f.unlined.toItem = some .nil ↔ operand.isAbsent = true)) ∧
    (n.tag = "while" ∨ n.tag = "until" ∨ n.tag = "while_mod" ∨ n.tag = "until_mod" →
      ∃ node holds, n.nodeAt 0 = .ok node ∧ sourceTruth V ctx true node = .ok holds ∧
        continues V f.unlined = some (holds != (n.is "until" || n.is "until_mod"))) := by
  have operands : ∀ {operand inside}, value? normalizeNode ctx operand = .ok inside →
      descend V 1 f.unlined.toItem = some (Form.itemOf inside).unlined →
      (descend V 1 f.unlined.toItem = some .nil ↔ operand.isAbsent = true) := by
    intro operand inside isInside leads
    rw [leads, Option.some_inj, itemOf_unlined_eq_nil, value?_eq_none isInside]
  refine ⟨?_, ?_, ?_, ?_⟩
  · intro isTag
    have found : rule? n.tag = some (conditional true (n.is "unless")) := by
      obtain isTag | isTag := isTag <;> rw [Raw.Node.is, isTag] <;> rfl
    obtain ⟨g, made, same⟩ := exists_of_localAt found
      (fun _ _ agree => conditional_congr agree ctx _ _ (Nat.le_refl _)) normal
    obtain ⟨choice, inside, chosen, isInside, leads⟩ :=
      conditional_keeps_choice V ctx n true (n.is "unless") g made
    rw [same]
    refine ⟨choice, inside, chosen, isInside, leads, ?_⟩
    intro isBody
    rw [leads, Option.some_inj, itemOf_unlined_eq_nil, body_eq_none isBody isInside]
  · intro isTag
    have found : rule? n.tag = some (modifier (n.is "unless_mod")) := by
      obtain isTag | isTag := isTag <;> rw [Raw.Node.is, isTag] <;> rfl
    obtain ⟨g, made, same⟩ := exists_of_localAt found
      (fun _ _ agree => modifier_congr agree ctx _ (Nat.le_refl _)) normal
    obtain ⟨operand, inside, chosen, isInside, leads⟩ := modifier_keeps_operand V made
    rw [← same] at leads
    exact ⟨operand, inside, chosen, isInside, leads, operands isInside leads⟩
  · intro isTag
    have found : rule? n.tag = some ternary := by
      rw [isTag]
      rfl
    obtain ⟨g, made, same⟩ := exists_of_localAt found
      (fun _ _ agree => ternary_congr agree ctx (Nat.le_refl _)) normal
    obtain ⟨operand, inside, chosen, isInside, leads⟩ := ternary_keeps_operand V made
    rw [← same] at leads
    exact ⟨operand, inside, chosen, isInside, leads, operands isInside leads⟩
  · intro isTag
    have isLoop : rule? n.tag = some (loop (n.is "until" || n.is "until_mod")) ∨
        rule? n.tag = some (postfixLoop (n.is "until" || n.is "until_mod")) := by
      obtain isTag | isTag | isTag | isTag := isTag <;> rw [Raw.Node.is, Raw.Node.is, isTag]
      · exact .inl rfl
      · exact .inl rfl
      · exact .inr rfl
      · exact .inr rfl
    obtain found | found := isLoop
    · obtain ⟨g, made, same⟩ := exists_of_localAt found
        (fun _ _ agree => loop_congr agree ctx _ (Nat.le_refl _)) normal
      rw [same]
      exact loop_keeps_test V made
    · obtain ⟨g, made, same⟩ := exists_of_localAt found
        (fun _ _ agree => postfixLoop_congr agree ctx _ (Nat.le_refl _)) normal
      rw [same]
      exact postfixLoop_keeps_test V made

/-! ### An example valuation -/

/-- Whether an item holds if nothing fails but what is negated. -/
def affirmed : Item → Bool
  | .node tag [item] _ _ => if tag == "not" then !affirmed item else true
  | _ => true

theorem affirmed_unlined (item : Item) : affirmed item.unlined = affirmed item := by
  fun_induction affirmed item with
  | case1 tag item line comments isNot ih =>
    simp [Item.unlined, Item.unlinedAll, affirmed, isNot, ih]
  | case2 tag item line comments other => simp [Item.unlined, Item.unlinedAll, affirmed, other]
  | case3 item other =>
    cases item with
    | node tag items line comments =>
      match items with
      | [] => simp [Item.unlined, Item.unlinedAll, affirmed]
      | [single] => exact absurd rfl (other tag single line comments)
      | _ :: _ :: _ => simp [Item.unlined, Item.unlinedAll, affirmed]
    | _ => simp [Item.unlined, affirmed]

/-- The valuation under which nothing fails but what is negated. -/
def affirmative : Valuation where
  truth f := affirmed f.toItem
  unlined f := by rw [← Form.toItem_unlined, affirmed_unlined]
  negation f g isNot single := by
    simp [Form.toItem, isNot, single, affirmed]

/-- The surroundings of the examples. -/
def exampleContext : Context where
  filename := "a.rb"
  lineOffset := 0
  charset := ⟨.utf8, false⟩

/-- A call without a receiver. -/
def bareCall (name : String) : Raw :=
  .node "vcall" [.node "@ident" [.str name, .pos 1 0]]

/-- `unless a !~ b then c elsif d then e end`. -/
def negatedChain : Raw.Node :=
  ⟨"unless",
    [.node "binary" [bareCall "a", .sym "!~", bareCall "b"],
     .node Raw.listTag [bareCall "c"],
     .node "elsif" [bareCall "d", .node Raw.listTag [bareCall "e"], .nil]]⟩

theorem negatedChain_keeps_choice :
    ∃ f, normalizeNode exampleContext negatedChain = .ok f ∧
      ∃ choice inside,
        sourceChoice affirmative exampleContext true true negatedChain = .ok choice ∧
        body normalizeNode exampleContext choice.body = .ok inside ∧
        descend affirmative choice.tests f.unlined.toItem = some (Form.itemOf inside).unlined := by
  have normal : ∃ f, normalizeNode exampleContext negatedChain = .ok f :=
    ⟨_, by with_unfolding_all rfl⟩
  obtain ⟨f, isNormal⟩ := normal
  obtain ⟨choice, inside, chosen, isInside, leads, -⟩ :=
    (normalizeNode_keeps_choice affirmative isNormal).1 (.inr rfl)
  exact ⟨f, isNormal, choice, inside, chosen, isInside, leads⟩

/-- `c` as a modifier of a list of statements that has none in it. -/
def emptyOperand : Raw.Node :=
  ⟨"if_mod", [bareCall "c", .node Raw.listTag [.node "void_stmt" []]]⟩

/-- A list of statements that stands as an operand is an expression: without any statement
it is the node `nil`, and the slot is not empty. -/
theorem not_nil_of_operand_without_statement :
    ¬ ∀ (V : Valuation) (ctx : Context) (n : Raw.Node) (f : Form) (operand : Raw),
      normalizeNode ctx n = .ok f → n.tag = "if_mod" →
      sourceOperand V ctx true false (n.slot 1) .nil n = .ok operand →
        (descend V 1 f.unlined.toItem = some .nil ↔
          operand.isAbsent = true ∨ hasNoStatement operand = true) := by
  intro claimed
  have normal : normalizeNode exampleContext emptyOperand =
      .ok ⟨"if", [.node "call" [.nil, .sym "c"] (some 1) none, .node "nil" [] none none, .nil],
        some 1, none⟩ := by
    with_unfolding_all rfl
  have chosen : sourceOperand affirmative exampleContext true false (emptyOperand.slot 1) .nil
      emptyOperand = .ok (emptyOperand.slot 1) := by
    with_unfolding_all rfl
  have slot := (claimed affirmative exampleContext emptyOperand _ _ normal rfl chosen).2 (.inr rfl)
  simp [descend, Form.unlined, Form.toItem, Item.unlinedAll, Item.unlined, affirmative, affirmed]
    at slot

end Rules

end RubyNormalForm
