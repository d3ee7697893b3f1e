import RubyNormalForm.Proofs.Rules.Absence
import RubyNormalForm.Proofs.Rules.Wrapping

/-!
# Negated matches in conditions

Every form with a condition has an opposite: `unless` is `if` with its branches exchanged, and
`until` is `while` with its test turned around. A condition `x !~ y` is taken to be the match
`x =~ y` under the opposite form. The match that it is replaced by is always a call, while a
match against a regular expression has a form of its own; so the two spellings have the same
normal form unless one of the operands is a regular expression.
-/

namespace RubyNormalForm

namespace Rules

/-! ### Binary operators -/

/-- An operator between two nodes. -/
def binaryNode (left : Raw.Node) (operator : Raw) (right : Raw.Node) : Raw.Node :=
  ⟨"binary", [left.toRaw, operator, right.toRaw]⟩

theorem binaryRule_localAt (ctx : Context) (n : Raw.Node) : Rule.LocalAt binaryRule ctx n := by
  intro inner inner' agree
  refine bind_congr_ok rfl fun left isLeft => ?_
  refine bind_congr_ok (agree ctx left (Raw.Node.size_of_nodeAt isLeft)) fun _ _ => ?_
  refine bind_congr_ok rfl fun operator _ => ?_
  refine bind_congr_ok rfl fun right isRight => ?_
  rw [agree ctx right (Raw.Node.size_of_nodeAt isRight)]

/-- The normal form of an operator is made of those of its operands. -/
theorem normalizeNode_binaryNode (ctx : Context) (left right : Raw.Node) {operator : Raw}
    {word : String} (isName : name operator = .ok word) :
    (normalizeNode ctx (binaryNode left operator right)).map Form.unlined =
      Except.map Form.unlined (do
        let l ← normalizeNode ctx left
        let r ← normalizeNode ctx right
        return binary word (left.is "paren") l r) := by
  have found : rule? (binaryNode left operator right).tag = some binaryRule := rfl
  rw [map_unlined_normalizeNode found (binaryRule_localAt ctx _)]
  refine congrArg _ ?_
  change (normalizeNode ctx left >>= fun l => name operator >>= fun word => _) = _
  rw [isName]
  rfl

/-- An operator as a condition is no range and stands in no wrapping. -/
theorem condition_binaryNode (ctx : Context) (flipFlop : Bool) (left right : Raw.Node)
    {operator : Raw} {word : String} (isName : name operator = .ok word) :
    (condition normalizeNode ctx flipFlop (binaryNode left operator right)).map Condition.unlined =
      Except.map Condition.unlined (do
        let l ← normalizeNode ctx left
        let r ← normalizeNode ctx right
        return Condition.ofForm (binary word (left.is "paren") l r)) := by
  have bare : conditionNode (binaryNode left operator right) = binaryNode left operator right := by
    rw [conditionNode, unwrap?_of_wrapped? rfl]
  rw [condition_of_not_isRange bare rfl]
  calc
    _ = Except.map Condition.unlined (Except.map Condition.ofForm (do
          let l ← normalizeNode ctx left
          let r ← normalizeNode ctx right
          return binary word (left.is "paren") l r)) :=
      bind_map_congr (f := fun g => .ok (Condition.ofForm g))
        (normalizeNode_binaryNode ctx left right isName)
        (fun f g same => congrArg Except.ok (unlined_ofForm_congr same))
    _ = _ := by
      cases normalizeNode ctx left with
      | error e => rfl
      | ok l => cases normalizeNode ctx right <;> rfl

/-! ### Matches as conditions -/

/-- A match as a call, whatever its operands are. -/
def matchCall (l r : Form) : Form :=
  .of "call" [l.toItem, .sym "=~", r.toItem]

/-- The form of a match, which depends on where a regular expression stands. -/
def matchForm (l r : Form) : Form :=
  if isRegexp l then .of "match2" [l.toItem, r.toItem]
  else if isRegexp r then .of "match3" [r.toItem, l.toItem]
  else matchCall l r

theorem binary_match (grouped : Bool) (l r : Form) : binary "=~" grouped l r = matchForm l r := by
  simp [binary, matchForm, matchCall]

theorem ofForm_match (grouped : Bool) (l r : Form) :
    Condition.ofForm (binary "=~" grouped l r) = ⟨matchForm l r, false⟩ := by
  rw [binary_match, matchForm]
  split
  · simp [Condition.ofForm, Form.is, Form.of, isRegexp]
  · split
    · simp [Condition.ofForm, Form.is, Form.of, isRegexp]
    · simp [Condition.ofForm, Form.is, Form.of, isRegexp, matchCall]

theorem unlined_ofForm_negated_match (grouped : Bool) (l r : Form) :
    (Condition.ofForm (binary "!~" grouped l r)).unlined = ⟨(matchCall l r).unlined, true⟩ := by
  simp [binary, Condition.ofForm, Condition.unlined, Form.is, Form.of, Form.toItem,
    Form.withLine, Form.unlined, matchCall]

/-- The two forms of a match are told apart by a regular expression. -/
theorem matchForm_eq_matchCall_iff (l r : Form) :
    (matchForm l r).unlined = (matchCall l r).unlined ↔
      isRegexp l = false ∧ isRegexp r = false := by
  constructor
  · intro same
    have tags : (matchForm l r).tag = "call" := congrArg Form.tag same
    rw [matchForm] at tags
    split at tags
    · simp [Form.of] at tags
    · rename_i left
      split at tags
      · simp [Form.of] at tags
      · rename_i right
        exact ⟨by simpa using left, by simpa using right⟩
  · rintro ⟨left, right⟩
    simp [matchForm, left, right]

/-! ### Opposite forms -/

/-- The condition that holds just when this one does not. -/
def Condition.opposite (t : Condition) : Condition :=
  ⟨t.expr, !t.negated⟩

/-- The forms with a condition that are opposite to each other. -/
def oppositeForms : List (String × String) :=
  [("if", "unless"), ("unless", "if"), ("if_mod", "unless_mod"), ("unless_mod", "if_mod"),
   ("while", "until"), ("until", "while"), ("while_mod", "until_mod"), ("until_mod", "while_mod")]

theorem branch_not (t : Condition) (swap : Bool) (yes no : Option Form) :
    branch t (!swap) yes no = branch t.opposite swap yes no := by
  cases swap <;> cases negated : t.negated <;> simp [branch, Condition.opposite, negated]

theorem loopForm_not (t : Condition) (isUntil : Bool) (items : List Item) :
    loopForm (!isUntil) t items = loopForm isUntil t.opposite items := by
  cases isUntil <;> cases negated : t.negated <;>
    simp [loopForm, loopTag, Condition.opposite, negated]

theorem replaceAt_branch (t : Condition) (e : Form) (swap : Bool) (yes no : Option Form) :
    (branch t swap yes no).replaceAt 0 e.toItem = branch ⟨e, t.negated⟩ swap yes no := by
  simp only [branch]
  split <;> rfl

/-- The frame of a form with which its opposite can be described: the opposite form turns the
condition around. It may word a failure differently, for an error names the form it is about.
The expression of the condition stands in one place of the result. -/
structure OppositeFrame (ctx : Context) (tag tag' : String) (rest : List Raw) extends
    ConditionFrame ctx true tag rest where
  opposite_eq : ∀ c : Raw.Node,
    outcome ((normalizeNode ctx ⟨tag', c.toRaw :: rest⟩).map Form.unlined) =
      outcome ((condition normalizeNode ctx true c >>= fun t =>
        parts.map (build t.opposite)).map Form.unlined)
  replaceAt_build : ∀ t e x, (build t x).replaceAt 0 e.toItem = build ⟨e, t.negated⟩ x

section Opposites

variable {ctx : Context} {tag tag' : String} {rest : List Raw}

/-- A child is read alike under another tag. -/
theorem outcome_nodeAt_mk (tag tag' : String) (children : List Raw) (i : Nat) :
    outcome (Raw.Node.nodeAt ⟨tag, children⟩ i) = outcome (Raw.Node.nodeAt ⟨tag', children⟩ i) := by
  simp only [Raw.Node.nodeAt, Raw.Node.slot]
  cases children.getD i .nil <;> rfl

theorem nonempty_opposite_conditional (swap : Bool)
    (found : rule? tag = some (conditional true swap))
    (found' : rule? tag' = some (conditional true (!swap))) :
    Nonempty (OppositeFrame ctx tag tag' rest) := by
  refine ⟨⟨conditionalFrame swap found, ?_, fun t e p => replaceAt_branch t e swap p.1 p.2⟩⟩
  intro c
  rw [(conditionalFrame (!swap) found').normalizeNode_eq c]
  simp only [conditionalFrame, branchFrame, branch_not]

theorem nonempty_opposite_modifier (swap : Bool) (found : rule? tag = some (modifier swap))
    (found' : rule? tag' = some (modifier (!swap))) :
    Nonempty (OppositeFrame ctx tag tag' rest) := by
  refine ⟨⟨modifierFrame swap found, ?_, fun t e p => replaceAt_branch t e swap p.1 p.2⟩⟩
  intro c
  rw [(modifierFrame (!swap) found').normalizeNode_eq c]
  simp only [modifierFrame, branchFrame, branch_not]

theorem nonempty_opposite_loop (isUntil : Bool) (found : rule? tag = some (loop isUntil))
    (found' : rule? tag' = some (loop (!isUntil))) :
    Nonempty (OppositeFrame ctx tag tag' rest) := by
  refine ⟨⟨prefixLoopFrame isUntil found, ?_, fun _ _ _ => rfl⟩⟩
  intro c
  rw [(prefixLoopFrame (!isUntil) found').normalizeNode_eq c]
  simp only [prefixLoopFrame, loopFrame, loopForm_not]

theorem nonempty_opposite_postfixLoop (isUntil : Bool)
    (found : rule? tag = some (postfixLoop isUntil))
    (found' : rule? tag' = some (postfixLoop (!isUntil))) :
    Nonempty (OppositeFrame ctx tag tag' rest) := by
  refine ⟨⟨postfixLoopFrame isUntil found, ?_, fun _ _ _ => rfl⟩⟩
  intro c
  have statement : outcome (Raw.Node.nodeAt ⟨tag', .nil :: rest⟩ 1) =
      outcome (Raw.Node.nodeAt ⟨tag, .nil :: rest⟩ 1) := outcome_nodeAt_mk tag' tag (.nil :: rest) 1
  rw [(postfixLoopFrame (!isUntil) found').normalizeNode_eq c]
  simp only [postfixLoopFrame, loopFrame, loopForm_not, outcome_map, outcome_bind, statement]

theorem nonempty_opposite (ctx : Context) (rest : List Raw) (pair : (tag, tag') ∈ oppositeForms) :
    Nonempty (OppositeFrame ctx tag tag' rest) := by
  simp only [oppositeForms, List.mem_cons, Prod.mk.injEq, List.not_mem_nil, or_false] at pair
  obtain ⟨rfl, rfl⟩ | ⟨rfl, rfl⟩ | ⟨rfl, rfl⟩ | ⟨rfl, rfl⟩ | ⟨rfl, rfl⟩ | ⟨rfl, rfl⟩ | ⟨rfl, rfl⟩ |
    ⟨rfl, rfl⟩ := pair
  · exact nonempty_opposite_conditional false rfl rfl
  · exact nonempty_opposite_conditional true rfl rfl
  · exact nonempty_opposite_modifier false rfl rfl
  · exact nonempty_opposite_modifier true rfl rfl
  · exact nonempty_opposite_loop false rfl rfl
  · exact nonempty_opposite_loop true rfl rfl
  · exact nonempty_opposite_postfixLoop false rfl rfl
  · exact nonempty_opposite_postfixLoop true rfl rfl

end Opposites

/-! ### Negated matches -/

namespace OppositeFrame

variable {ctx : Context} {tag tag' : String} {rest : List Raw} {negative positive : Raw}

/-- Conditions that agree without their lines are built upon alike. -/
theorem map_unlined_build (frame : OppositeFrame ctx tag tag' rest) {t u : Condition}
    (same : t.unlined = u.unlined) :
    (frame.parts.map (frame.build t)).map Form.unlined =
      (frame.parts.map (frame.build u)).map Form.unlined := by
  cases frame.parts with
  | error e => rfl
  | ok x => exact congrArg Except.ok (frame.unlined_build t u x same)

/-- The form with a negated match is built on the call, turned around. -/
theorem negated_eq (frame : OppositeFrame ctx tag tag' rest) (x y : Raw.Node)
    (isNegative : name negative = .ok "!~") :
    (normalizeNode ctx ⟨tag, (binaryNode x negative y).toRaw :: rest⟩).map Form.unlined =
      Except.map Form.unlined (do
        let l ← normalizeNode ctx x
        let r ← normalizeNode ctx y
        frame.parts.map (frame.build ⟨matchCall l r, true⟩)) := by
  have conditions := condition_binaryNode ctx true x y isNegative
  rw [frame.normalizeNode_eq, bind_map_congr conditions fun t u => frame.map_unlined_build]
  cases normalizeNode ctx x with
  | error e => rfl
  | ok l =>
    cases normalizeNode ctx y with
    | error e => rfl
    | ok r => exact frame.map_unlined_build (unlined_ofForm_negated_match _ l r)

/-- The opposite form with the match is built on its own form, turned around. -/
theorem matched_eq (frame : OppositeFrame ctx tag tag' rest) (x y : Raw.Node)
    (isPositive : name positive = .ok "=~") :
    outcome ((normalizeNode ctx ⟨tag', (binaryNode x positive y).toRaw :: rest⟩).map
        Form.unlined) =
      outcome (Except.map Form.unlined (do
        let l ← normalizeNode ctx x
        let r ← normalizeNode ctx y
        frame.parts.map (frame.build ⟨matchForm l r, true⟩))) := by
  have conditions := condition_binaryNode ctx true x y isPositive
  have turned {t u : Condition} (same : t.unlined = u.unlined) :
      t.opposite.unlined = u.opposite.unlined := by
    obtain ⟨exprs, negations⟩ := Condition.mk.inj same
    simp only [Condition.opposite, Condition.unlined, exprs, negations]
  rw [frame.opposite_eq,
    bind_map_congr conditions fun t u same => frame.map_unlined_build (turned same)]
  cases normalizeNode ctx x with
  | error e => rfl
  | ok l =>
    cases normalizeNode ctx y with
    | error e => rfl
    | ok r =>
      change outcome (Except.map Form.unlined (frame.parts.map (frame.build
        (Condition.ofForm (binary "=~" (x.is "paren") l r)).opposite))) = _
      rw [ofForm_match]
      rfl

/-- What is built on the call and on the form of a match is told apart by a regular expression:
the condition comes first in the result. -/
theorem build_eq_iff (frame : OppositeFrame ctx tag tag' rest) (l r : Form) (p : frame.Parts) :
    (frame.build ⟨matchCall l r, true⟩ p).unlined = (frame.build ⟨matchForm l r, true⟩ p).unlined ↔
      isRegexp l = false ∧ isRegexp r = false := by
  rw [← matchForm_eq_matchCall_iff]
  constructor
  · intro same
    have heads := congrArg (·.items.head?) same
    simp only [frame.head?_unlined_build, Option.some_inj] at heads
    exact (Form.toItem_inj heads).symm
  · intro same
    exact frame.unlined_build _ _ p (congrArg (Condition.mk · true) same.symm)

end OppositeFrame

/-- A form with the condition `x !~ y` and its opposite with `x =~ y` have the same normal form,
or neither has one, if no operand is a regular expression.

In any case they differ in the condition at most, which is a call in the first. So they differ
just if one of the operands is a regular expression. -/
theorem normalizeNode_negated_match (ctx : Context) {tag tag' : String}
    (pair : (tag, tag') ∈ oppositeForms) (x y : Raw.Node) {negative positive : Raw}
    (isNegative : name negative = .ok "!~") (isPositive : name positive = .ok "=~")
    (rest : List Raw) :
    let negated := normalizeNode ctx ⟨tag, (binaryNode x negative y).toRaw :: rest⟩
    let matched := normalizeNode ctx ⟨tag', (binaryNode x positive y).toRaw :: rest⟩
    (Ensures (normalizeNode ctx x) (isRegexp · = false) →
      Ensures (normalizeNode ctx y) (isRegexp · = false) →
      outcome (negated.map Form.unlined) = outcome (matched.map Form.unlined)) ∧
    ∀ l r, normalizeNode ctx x = .ok l → normalizeNode ctx y = .ok r →
      outcome (negated.map Form.unlined) =
        (outcome (matched.map Form.unlined)).map
          (·.replaceAt 0 (matchCall l r).unlined.toItem) ∧
      ∀ f, matched = .ok f →
        (outcome (negated.map Form.unlined) = some f.unlined ↔
          isRegexp l = false ∧ isRegexp r = false) := by
  intro negated matched
  obtain ⟨frame⟩ := nonempty_opposite ctx rest pair
  have isNegated := frame.negated_eq x y isNegative
  have isMatched := frame.matched_eq x y isPositive
  constructor
  · intro plainLeft plainRight
    rw [isMatched, isNegated]
    cases left : normalizeNode ctx x with
    | error e => rfl
    | ok l =>
      cases right : normalizeNode ctx y with
      | error e => rfl
      | ok r =>
        have same := (matchForm_eq_matchCall_iff l r).2 ⟨plainLeft l left, plainRight r right⟩
        exact congrArg outcome (frame.map_unlined_build
          (congrArg (Condition.mk · true) same.symm))
  · intro l r left right
    simp only [left, right, ok_bind] at isNegated isMatched
    constructor
    · rw [isMatched, isNegated]
      cases frame.parts with
      | error e => rfl
      | ok p =>
        have replaced := frame.replaceAt_build ⟨matchForm l r, true⟩ (matchCall l r) p
        exact congrArg some ((congrArg Form.unlined replaced).symm.trans
          (Form.unlined_replaceAt _ 0 _))
    · intro f isForm
      have isForm : normalizeNode ctx ⟨tag', (binaryNode x positive y).toRaw :: rest⟩ = .ok f :=
        isForm
      rw [isForm] at isMatched
      rw [isNegated]
      cases parts : frame.parts with
      | error e =>
        rw [parts] at isMatched
        cases isMatched
      | ok p =>
        rw [parts] at isMatched
        rw [← frame.build_eq_iff l r p, ← Option.some.inj isMatched]
        exact Option.some_inj

/-- `/x/`. -/
def regexpNode : Raw.Node :=
  ⟨"regexp_literal", [.node Raw.listTag [.node "@tstring_content" [.str "x", .pos 1 9, .str "/"]],
    .node "@regexp_end" [.str "/", .pos 1 10]]⟩

/-- A call without a receiver. -/
def callNode (text : String) : Raw.Node :=
  ⟨"vcall", [.node "@ident" [.str text, .pos 1 0]]⟩

/-- The normal form of a call without a receiver. -/
def callForm (text : String) : Form :=
  ⟨"call", [.nil, .sym text], some 1, none⟩

/-- The branches `c` and `else d`. -/
def branches : List Raw :=
  [.node Raw.listTag [bareCall "c"], .node "else" [.node Raw.listTag [bareCall "d"]]]

theorem normalizeNode_callNode (text : String) :
    normalizeNode exampleContext (callNode text) = .ok (callForm text) := by
  have found : rule? (callNode text).tag = some bareCallRule := rfl
  have isLocal : Rule.LocalAt bareCallRule exampleContext (callNode text) := fun _ _ _ => rfl
  have isToken : Raw.Node.isToken ⟨"@ident", [.str text, .pos 1 0]⟩ = true := by
    simp [Raw.Node.isToken]
  have isName : name ((callNode text).slot 0) = .ok text := by
    change tokenText ⟨"@ident", [.str text, .pos 1 0]⟩ = .ok text
    rw [tokenText, token, if_pos isToken]
    rfl
  rw [normalizeNode_of_localAt found isLocal, bareCallRule, isName]
  rfl

theorem normalizeNode_regexpNode :
    normalizeNode exampleContext regexpNode =
      .ok ⟨"lit", [.regexp ⟨"x", 0⟩], some 1, none⟩ := by
  with_unfolding_all rfl

/-- `unless a !~ b` is `if a =~ b`, but `if a !~ /x/` is not `unless a =~ /x/`. -/
theorem negated_match_with_branches :
    (∃ f, normalizeNode exampleContext
        ⟨"if", (binaryNode (callNode "a") (.sym "=~") (callNode "b")).toRaw :: branches⟩ = .ok f ∧
      outcome ((normalizeNode exampleContext
        ⟨"unless", (binaryNode (callNode "a") (.sym "!~") (callNode "b")).toRaw :: branches⟩).map
          Form.unlined) = some f.unlined) ∧
    ∃ f, normalizeNode exampleContext
        ⟨"unless", (binaryNode (callNode "a") (.sym "=~") regexpNode).toRaw :: branches⟩ = .ok f ∧
      outcome ((normalizeNode exampleContext
        ⟨"if", (binaryNode (callNode "a") (.sym "!~") regexpNode).toRaw :: branches⟩).map
          Form.unlined) ≠ some f.unlined := by
  have negative : name (.sym "!~") = .ok "!~" := rfl
  have positive : name (.sym "=~") = .ok "=~" := rfl
  constructor
  · have plain (text : String) :
        Ensures (normalizeNode exampleContext (callNode text)) (isRegexp · = false) := by
      rw [normalizeNode_callNode, ensures_ok]
      rfl
    have normal : ∃ f, normalizeNode exampleContext
        ⟨"if", (binaryNode (callNode "a") (.sym "=~") (callNode "b")).toRaw :: branches⟩ = .ok f :=
      ⟨_, by with_unfolding_all rfl⟩
    obtain ⟨f, isNormal⟩ := normal
    have pair : ("unless", "if") ∈ oppositeForms := by decide
    have same := (normalizeNode_negated_match exampleContext pair (callNode "a") (callNode "b")
      negative positive branches).1 (plain "a") (plain "b")
    rw [isNormal] at same
    exact ⟨f, isNormal, same⟩
  · have normal : ∃ f, normalizeNode exampleContext
        ⟨"unless", (binaryNode (callNode "a") (.sym "=~") regexpNode).toRaw :: branches⟩ = .ok f :=
      ⟨_, by with_unfolding_all rfl⟩
    obtain ⟨f, isNormal⟩ := normal
    have pair : ("if", "unless") ∈ oppositeForms := by decide
    have differ := ((normalizeNode_negated_match exampleContext pair (callNode "a") regexpNode
      negative positive branches).2 _ _ (normalizeNode_callNode "a") normalizeNode_regexpNode).2 f
      isNormal
    refine ⟨f, isNormal, ?_⟩
    intro same
    have plain := (differ.1 same).2
    cases plain

/-- A negated match against a regular expression keeps a call as its condition. -/
theorem not_opposite_of_regexp :
    ¬ ∀ (ctx : Context) (tag tag' : String) (x y : Raw.Node) (rest : List Raw),
      (tag, tag') ∈ oppositeForms →
      outcome ((normalizeNode ctx
          ⟨tag, (binaryNode x (.sym "!~") y).toRaw :: rest⟩).map Form.unlined) =
        outcome ((normalizeNode ctx
          ⟨tag', (binaryNode x (.sym "=~") y).toRaw :: rest⟩).map Form.unlined) := by
  intro claimed
  have same := claimed exampleContext "if" "unless" (callNode "a") regexpNode branches (by decide)
  have negated : normalizeNode exampleContext
      ⟨"if", (binaryNode (callNode "a") (.sym "!~") regexpNode).toRaw :: branches⟩ =
      .ok ⟨"if", [.node "call" [.node "call" [.nil, .sym "a"] (some 1) none, .sym "=~",
          .node "lit" [.regexp ⟨"x", 0⟩] (some 1) none] (some 1) none,
        .node "call" [.nil, .sym "d"] (some 1) none, .node "call" [.nil, .sym "c"] (some 1) none],
        some 1, none⟩ := by
    with_unfolding_all rfl
  have matched : normalizeNode exampleContext
      ⟨"unless", (binaryNode (callNode "a") (.sym "=~") regexpNode).toRaw :: branches⟩ =
      .ok ⟨"if", [.node "match3" [.node "lit" [.regexp ⟨"x", 0⟩] (some 1) none,
          .node "call" [.nil, .sym "a"] (some 1) none] (some 1) none,
        .node "call" [.nil, .sym "d"] (some 1) none, .node "call" [.nil, .sym "c"] (some 1) none],
        some 1, none⟩ := by
    with_unfolding_all rfl
  rw [negated, matched] at same
  simp [outcome, Except.map, Except.toOption, Form.unlined, Item.unlinedAll, Item.unlined] at same

end Rules

end RubyNormalForm
