import Mathlib.Data.List.Induction
import RubyNormalForm.Proofs.Rules.Agreement.Literal
import RubyNormalForm.Proofs.Rules.Composition.Program
import RubyNormalForm.Proofs.Rules.Matching

/-!
# Boolean chains

A chain such as `a && b and c` comes nested to the left, and its normal form nests to the right
over the same operands in the same order. Each step takes the left side apart along its second
operands and puts one more operand at the end.

What a step sees is a normal form, in which an operand that is itself a chain of the operator
looks like the rest of the chain. So an operand in parentheses is kept whole at both ends only:
the first one because the step looks at its node, the last one because it is never taken apart.
Between the ends, the operands of an operand stand in its place.
-/

namespace RubyNormalForm

/-! ### The nodes of a boolean operator -/

/-- A node of a boolean operator has two items or more, and conforms to the schema if it has no
more than two. It has more only if arguments in parentheses follow it. -/
def Form.JoinsNodes (f : Form) : Prop :=
  f.tag = "and" ∨ f.tag = "or" →
    2 ≤ f.items.length ∧ (f.items.length = 2 → f.Conforms)

theorem Form.Conforms.joinsNodes {f : Form} (conforms : f.Conforms) : f.JoinsNodes := by
  intro isBoolean
  obtain ⟨left, right, kinds, -, -⟩ := Shape.operands conforms isBoolean
  have two : f.items.length = 2 := by
    simpa [Form.kinds] using congrArg List.length kinds
  exact ⟨by omega, fun _ => conforms⟩

theorem lineFree_joinsNodes : LineFree Form.JoinsNodes := by
  intro f g filled h isBoolean
  have lengths : g.items.length = f.items.length := by
    simpa [Item.unlinedAll_eq_map] using congrArg List.length filled.items
  rw [filled.tag] at isBoolean
  obtain ⟨least, conforms⟩ := h isBoolean
  rw [lengths]
  exact ⟨least, fun two => lineFree_conforms filled (conforms two)⟩

theorem law_joinsNodes (ctx : Context) : Law (fun _ _ => True) ctx Form.JoinsNodes where
  closed := by
    intro _ _ _ _ _ _
    trivial
  lineFree := lineFree_joinsNodes
  fresh _ _ conforms := conforms.joinsNodes
  rebuilt := by
    intro f g h _ sameTag lengths _ keeps isBoolean
    rw [sameTag] at isBoolean
    obtain ⟨least, conforms⟩ := h isBoolean
    rw [lengths]
    exact ⟨least, fun two => keeps (conforms two)⟩
  assigned := by
    intro b n t _ _ _ values isBoolean
    cases b <;> simp [classVariableTag] at isBoolean
  defined _ _ _ _ _ _ conforms := Form.Conforms.joinsNodes conforms
  commented _ _ _ _ := ⟨trivial, fun h => h⟩
  extended := by
    intro b n m f _ _ _ _ h args isBoolean
    obtain ⟨least, conforms⟩ := h isBoolean
    have lengths : (f.pushAll args).items.length = f.items.length + args.length := by
      simp [Form.pushAll]
    refine ⟨by omega, fun two => ?_⟩
    obtain rfl : args = [] := List.length_eq_zero_iff.1 (by omega)
    have same : f.pushAll [] = f := by simp [Form.pushAll]
    rw [same]
    exact conforms (by omega)

theorem joinsNodes_normalizeNode (ctx : Context) (n : Raw.Node) :
    Ensures (normalizeNode ctx n) (Form.All Form.JoinsNodes) :=
  all_normalizeNode (law_joinsNodes ctx) n (.expression ctx.inMethodBody) trivial rfl

/-- A node of a boolean operator with two items has two nodes in it. -/
theorem Form.JoinsNodes.pair {tag : String} (isBoolean : tag = "and" ∨ tag = "or")
    {first second : Item} {line : Option Nat} {comments : Option String}
    (h : (Form.mk tag [first, second] line comments).JoinsNodes) :
    first.kind.IsNode ∧ second.kind.IsNode := by
  obtain ⟨left, right, kinds, isLeft, isRight⟩ := Shape.operands ((h isBoolean).2 rfl) isBoolean
  cases kinds
  exact ⟨isLeft, isRight⟩

namespace Rules

/-! ### Operands of a normal form -/

/-- Operands joined by an operator from the right. -/
def rightNest (tag : String) (before : List Form) (last : Form) : Form :=
  before.foldr (fun f rest => .of tag [f.toItem, rest.toItem]) last

/-- The operands of a chain, found along the second operands; what is no chain of the operator
is its own only operand. -/
def operands (tag : String) : Item → List Form
  | .node leftTag items line comments =>
    if leftTag == tag then
      match items with
      | [first, second] => first.form?.toList ++ operands tag second
      | _ => [⟨leftTag, items, line, comments⟩]
    else [⟨leftTag, items, line, comments⟩]
  | _ => []

variable {tag : String}

@[simp] theorem rightNest_nil (last : Form) : rightNest tag [] last = last := rfl

@[simp] theorem rightNest_cons (f : Form) (before : List Form) (last : Form) :
    rightNest tag (f :: before) last = .of tag [f.toItem, (rightNest tag before last).toItem] :=
  rfl

@[simp] theorem rightNest_append (before more : List Form) (last : Form) :
    rightNest tag (before ++ more) last = rightNest tag before (rightNest tag more last) :=
  List.foldr_append

theorem operands_of_ne {f : Form} (other : f.tag ≠ tag) : operands tag f.toItem = [f] := by
  have other : ¬ (f.tag == tag) = true := by simpa using other
  rw [Form.toItem, operands.eq_def]
  simp only [if_neg other]

theorem flatMap_operands_of_ne {forms : List Form} (others : ∀ f ∈ forms, f.tag ≠ tag) :
    forms.flatMap (fun f => operands tag f.toItem) = forms := by
  calc
    _ = forms.flatMap (fun f => [f]) :=
      List.flatMap_congr fun f member => operands_of_ne (others f member)
    _ = forms := List.flatMap_singleton' forms

@[simp]
theorem operands_rightNest (before : List Form) (last : Form) :
    operands tag (rightNest tag before last).toItem = before ++ operands tag last.toItem := by
  induction before with
  | nil => rfl
  | cons f before ih =>
    rw [rightNest_cons, List.cons_append, ← ih, Form.toItem, operands.eq_def]
    simp [Form.of, Item.form?, Form.toItem]

/-- Taking a chain apart does not depend on lines. -/
theorem operands_unlined (x : Item) :
    operands tag x.unlined = (operands tag x).map Form.unlined := by
  cases x with
  | node leftTag items line comments =>
    by_cases same : (leftTag == tag) = true
    · match items with
      | [first, second] =>
        simp only [operands, Item.unlined, Item.unlinedAll, same, if_true,
          operands_unlined second, Item.form?_unlined first, List.map_append]
        cases first.form? <;> rfl
      | [] => simp [operands, Item.unlined, Item.unlinedAll, same, Form.unlined]
      | [_] => simp [operands, Item.unlined, Item.unlinedAll, same, Form.unlined]
      | _ :: _ :: _ :: _ => simp [operands, Item.unlined, Item.unlinedAll, same, Form.unlined]
    · rw [Item.unlined, operands.eq_def, operands.eq_def]
      simp [same, Form.unlined]
  | _ => rfl

/-- One more operand goes to the end of the operands on the left. The recursion is that of
`chain`: both go on in the second item of a node of the operator. -/
theorem unlined_chain {tag : String} (isBoolean : tag = "and" ∨ tag = "or") (right : Form)
    (x : Item) (h : x.All Form.JoinsNodes) (isNode : x.kind.IsNode) :
    (chain tag right x).unlined =
      rightNest tag ((operands tag x).map Form.unlined) right.unlined := by
  cases x with
  | node leftTag items line comments =>
    have whole : (Form.of tag [.node leftTag items line comments, right.toItem]).unlined =
        rightNest tag [(Form.mk leftTag items line comments).unlined] right.unlined := by
      simp only [Form.unlined_of, Item.unlinedAll, Form.toItem_unlined]
      rfl
    by_cases same : leftTag = tag
    · subst same
      match items, h, whole with
      | [first, second], h, _ =>
        obtain ⟨root, inside⟩ := Item.all_node.1 h
        obtain ⟨⟨firstTag, isFirst⟩, isSecond⟩ := root.pair isBoolean
        cases first <;> cases isFirst
        have further := unlined_chain isBoolean right second (inside second (by simp)) isSecond
        cases second with
        | node secondTag secondItems secondLine secondComments =>
          simp only [chain, operands, beq_self_eq_true, if_true, Form.unlined_withLine,
            Form.unlined_of, Item.unlinedAll, Form.toItem_unlined, further]
          rfl
        | _ =>
          obtain ⟨secondTag, isSecond⟩ := isSecond
          cases isSecond
      | [], _, whole => simpa [chain, operands] using whole
      | [_], _, whole => simpa [chain, operands] using whole
      | _ :: _ :: _ :: _, _, whole => simpa [chain, operands] using whole
    · have other : operands tag (.node leftTag items line comments) =
          [⟨leftTag, items, line, comments⟩] :=
        operands_of_ne (f := ⟨leftTag, items, line, comments⟩) same
      rw [chain_of_differs (by simpa using same), other, whole]
      rfl
  | _ =>
    obtain ⟨nodeTag, isNode⟩ := isNode
    cases isNode

/-! ### Chains as they are parsed -/

/-- The tag of the chains that an operator makes. -/
def chainTag? (word : String) : Option String :=
  if word == "&&" || word == "and" then some "and"
  else if word == "||" || word == "or" then some "or"
  else none

theorem isBoolean_of_chainTag? {word : String} (isChain : chainTag? word = some tag) :
    tag = "and" ∨ tag = "or" := by
  rw [chainTag?] at isChain
  split at isChain
  · exact .inl (Option.some.inj isChain).symm
  · split at isChain
    · exact .inr (Option.some.inj isChain).symm
    · cases isChain

theorem binary_of_chainTag? {word : String} (isChain : chainTag? word = some tag) (grouped : Bool)
    (left right : Form) : binary word grouped left right = boolean tag grouped left right := by
  rw [chainTag?] at isChain
  rw [binary]
  split at isChain
  · rename_i isAnd
    obtain rfl := Option.some.inj isChain
    rw [if_pos isAnd]
  · rename_i notAnd
    split at isChain
    · rename_i isOr
      obtain rfl := Option.some.inj isChain
      rw [if_neg notAnd, if_pos isOr]
    · cases isChain

/-- An operand of a chain with the operator before it, which may be written in either way. -/
structure Link (tag : String) where
  operator : Raw
  operand : Raw.Node
  joins : ∃ word, name operator = .ok word ∧ chainTag? word = some tag

/-- A node with further operands, nested to the left. -/
def joined (first : Raw.Node) (links : List (Link tag)) : Raw.Node :=
  links.foldl (fun left link => binaryNode left link.operator link.operand) first

/-- A chain of one operator: two operands or more. -/
structure BooleanChain (tag : String) where
  first : Raw.Node
  middle : List (Link tag)
  last : Link tag

/-- The chain as a node. -/
def BooleanChain.node (c : BooleanChain tag) : Raw.Node :=
  binaryNode (joined c.first c.middle) c.last.operator c.last.operand

/-- The operands that a node brings into a chain as its left side. Parentheses make it one. -/
def leftOperands (tag : String) (n : Raw.Node) (f : Form) : List Form :=
  if n.is "paren" then [f] else operands tag f.toItem

theorem joined_append (first : Raw.Node) (links : List (Link tag)) (link : Link tag) :
    joined first (links ++ [link]) =
      binaryNode (joined first links) link.operator link.operand := by
  simp only [joined, List.foldl_append, List.foldl_cons, List.foldl_nil]

theorem leftOperands_of_single {n : Raw.Node} {f : Form}
    (single : n.is "paren" = true ∨ f.tag ≠ tag) : leftOperands tag n f = [f] := by
  rw [leftOperands]
  split
  · rfl
  · rename_i notParen
    obtain isParen | other := single
    · exact absurd isParen notParen
    · exact operands_of_ne other

/-- One step of a chain: the operands of the left side, and then the right one. -/
theorem normalizeNode_link (ctx : Context) {left : Raw.Node} (link : Link tag) {l r : Form}
    (isLeft : normalizeNode ctx left = .ok l) (isRight : normalizeNode ctx link.operand = .ok r) :
    ∃ f, normalizeNode ctx (binaryNode left link.operator link.operand) = .ok f ∧
      f.unlined = rightNest tag ((leftOperands tag left l).map Form.unlined) r.unlined := by
  obtain ⟨word, isName, isChain⟩ := link.joins
  have made := normalizeNode_binaryNode ctx left link.operand isName
  rw [isLeft, isRight, ok_bind, ok_bind, binary_of_chainTag? isChain] at made
  obtain ⟨f, isForm, same⟩ := map_eq_ok.1 made
  refine ⟨f, isForm, same.trans ?_⟩
  rw [leftOperands, boolean]
  split
  · simp only [Form.unlined_of, Item.unlinedAll, Form.toItem_unlined]
    rfl
  · exact unlined_chain (isBoolean_of_chainTag? isChain) r l.toItem
      (joinsNodes_normalizeNode ctx left l isLeft) (Item.Kind.isNode_node _)

section Forms

variable {inner : Normalizer} {ctx : Context} {fs : List Form}

theorem forms_cons {n : Raw.Node} {nodes : List Raw.Node}
    (found : forms inner ctx (n :: nodes) = .ok fs) :
    ∃ f gs, fs = f :: gs ∧ inner ctx n = .ok f ∧ forms inner ctx nodes = .ok gs := by
  rw [forms] at found
  obtain ⟨f, isFirst, found⟩ := bind_eq_ok.1 found
  obtain ⟨gs, areRest, found⟩ := bind_eq_ok.1 found
  cases found
  exact ⟨f, gs, rfl, isFirst, areRest⟩

theorem forms_append {nodes more : List Raw.Node}
    (found : forms inner ctx (nodes ++ more) = .ok fs) :
    ∃ gs hs, fs = gs ++ hs ∧ forms inner ctx nodes = .ok gs ∧ forms inner ctx more = .ok hs := by
  induction nodes generalizing fs with
  | nil => exact ⟨[], fs, rfl, rfl, found⟩
  | cons n nodes ih =>
    obtain ⟨f, rest, rfl, isFirst, areRest⟩ := forms_cons found
    obtain ⟨gs, hs, rfl, areFirst, areMore⟩ := ih areRest
    refine ⟨f :: gs, hs, rfl, ?_, areMore⟩
    rw [forms, isFirst, ok_bind, areFirst]
    rfl

theorem length_forms {nodes : List Raw.Node} (found : forms inner ctx nodes = .ok fs) :
    fs.length = nodes.length := by
  induction nodes generalizing fs with
  | nil =>
    cases found
    rfl
  | cons n nodes ih =>
    obtain ⟨f, rest, rfl, -, areRest⟩ := forms_cons found
    rw [List.length_cons, List.length_cons, ih areRest]

end Forms

namespace BooleanChain

variable {ctx : Context} {head final : Form} {inits : List Form}

/-- A whole chain: what the first operand brings, the operands of those between the ends, and
the last one as it is. The induction is on the operands between the ends, from the right. -/
theorem normalizeNode_node (c : BooleanChain tag) (isHead : normalizeNode ctx c.first = .ok head)
    (areInits : forms normalizeNode ctx (c.middle.map Link.operand) = .ok inits)
    (isFinal : normalizeNode ctx c.last.operand = .ok final) :
    ∃ f, normalizeNode ctx c.node = .ok f ∧
      f.unlined = rightNest tag ((leftOperands tag c.first head ++
        inits.flatMap fun g => operands tag g.toItem).map Form.unlined) final.unlined := by
  obtain ⟨first, middle, last⟩ := c
  induction middle using List.reverseRecOn generalizing last final inits with
  | nil =>
    cases areInits
    simpa [BooleanChain.node, joined] using normalizeNode_link ctx last isHead isFinal
  | append_singleton middle link ih =>
    rw [List.map_append] at areInits
    obtain ⟨before, ends, rfl, areBefore, areEnds⟩ := forms_append areInits
    obtain ⟨g, rest, rfl, isEnd, noRest⟩ := forms_cons areEnds
    cases noRest
    obtain ⟨l, isLeft, left⟩ := ih link isHead areBefore isEnd
    obtain ⟨f, isForm, same⟩ := normalizeNode_link ctx last isLeft isFinal
    refine ⟨f, by rwa [BooleanChain.node, joined_append], same.trans ?_⟩
    -- The left side is an operator and not in parentheses, so it is taken apart.
    have apart : leftOperands tag (BooleanChain.node ⟨first, middle, link⟩) l =
        operands tag l.toItem := rfl
    rw [apart, ← operands_unlined, Form.toItem_unlined, left, operands_rightNest,
      ← Form.toItem_unlined, operands_unlined]
    simp

/-- A chain nests to the right over its operands, in order, if none between the ends is a chain
of the operator itself. The first operand may be one if it is in parentheses, and the last one
may be anything. -/
theorem normalizeNode_nests_right (c : BooleanChain tag)
    (isHead : normalizeNode ctx c.first = .ok head)
    (areInits : forms normalizeNode ctx (c.middle.map Link.operand) = .ok inits)
    (isFinal : normalizeNode ctx c.last.operand = .ok final)
    (single : c.first.is "paren" = true ∨ head.tag ≠ tag) (others : ∀ f ∈ inits, f.tag ≠ tag) :
    ∃ f, normalizeNode ctx c.node = .ok f ∧
      f.unlined = rightNest tag ((head :: inits).map Form.unlined) final.unlined := by
  obtain ⟨f, isForm, same⟩ := c.normalizeNode_node isHead areInits isFinal
  rw [leftOperands_of_single single, flatMap_operands_of_ne others] at same
  exact ⟨f, isForm, same⟩

/-- `a || b` in parentheses. -/
def groupedOr : Raw.Node :=
  ⟨"paren", [.node Raw.listTag [(binaryNode (callNode "a") (.sym "||") (callNode "b")).toRaw]]⟩

/-- `(a || b) or c || d or e`. -/
def mixedOr : BooleanChain "or" where
  first := groupedOr
  middle := [⟨.sym "or", callNode "c", "or", rfl, rfl⟩, ⟨.sym "||", callNode "d", "||", rfl, rfl⟩]
  last := ⟨.node "@kw" [.str "or", .pos 1 20], callNode "e", "or", rfl, rfl⟩

theorem mixedOr_nests_right :
    ∃ f, normalizeNode exampleContext mixedOr.node = .ok f ∧
      f.unlined = rightNest "or" [rightNest "or" [(callForm "a").unlined] (callForm "b").unlined,
        (callForm "c").unlined, (callForm "d").unlined] (callForm "e").unlined := by
  have isHead : normalizeNode exampleContext mixedOr.first = .ok
      ⟨"or", [(callForm "a").toItem, (callForm "b").toItem], some 1, none⟩ := by
    with_unfolding_all rfl
  have areInits : forms normalizeNode exampleContext (mixedOr.middle.map Link.operand) =
      .ok [callForm "c", callForm "d"] := by
    with_unfolding_all rfl
  have isFinal : normalizeNode exampleContext mixedOr.last.operand = .ok (callForm "e") := by
    with_unfolding_all rfl
  exact mixedOr.normalizeNode_nests_right isHead areInits isFinal (.inl rfl) (by decide)

end BooleanChain

/-! ### Operands in parentheses -/

/-- A node in parentheses that hold nothing but a chain of the operator. -/
inductive GroupedChain (tag : String) : Raw.Node → Prop
  | paren (c : BooleanChain tag) {list : Raw} (only : HoldsOnly c.node list) :
      GroupedChain tag ⟨"paren", [list]⟩

/-- The form stands whole at an index of a chain: below that many operands, a node of the operator
has it as its first item. -/
def OperandAt (tag : String) (i : Nat) (g f : Form) : Prop :=
  ∃ (before : List Form) (rest : Item), before.length = i ∧
    f.unlined = rightNest tag before (.of tag [g.unlined.toItem, rest])

theorem rightNest_inj {before before' : List Form} {last last' : Form}
    (lengths : before.length = before'.length)
    (same : rightNest tag before last = rightNest tag before' last') : last = last' := by
  induction before generalizing before' with
  | nil =>
    obtain rfl : before' = [] := List.length_eq_zero_iff.1 lengths.symm
    exact same
  | cons f before ih =>
    cases before' with
    | nil => cases lengths
    | cons f' before' =>
      have items := (Form.mk.inj same).2.1
      exact ih (Nat.succ.inj lengths) (Form.toItem_inj (List.cons.inj (List.cons.inj items).2).1)

theorem operands_ne_nil (isBoolean : tag = "and" ∨ tag = "or") {f : Form}
    (joins : f.JoinsNodes) : operands tag f.toItem ≠ [] := by
  obtain ⟨leftTag, items, line, comments⟩ := f
  by_cases same : leftTag = tag
  · subst same
    match items, joins with
    | [first, second], joins =>
      obtain ⟨⟨firstTag, isFirst⟩, -⟩ := joins.pair isBoolean
      cases first <;> cases isFirst
      simp [Form.toItem, operands, Item.form?]
    | [], _ => simp [Form.toItem, operands]
    | [_], _ => simp [Form.toItem, operands]
    | _ :: _ :: _ :: _, _ => simp [Form.toItem, operands]
  · rw [operands_of_ne same]
    simp

/-- The normal form of a chain in parentheses is a node of the operator. -/
theorem GroupedChain.exists_rightNest {n : Raw.Node} (grouped : GroupedChain tag n) {ctx : Context}
    {g : Form} (isForm : normalizeNode ctx n = .ok g) :
    ∃ first before last, g.unlined = rightNest tag (first :: before) last := by
  obtain ⟨c, only⟩ := grouped
  rw [(Wrapping.paren only).normalizeNode_eq] at isForm
  obtain ⟨f, isChain, rfl⟩ := map_eq_ok.1 isForm
  obtain ⟨word, isName, isWord⟩ := c.last.joins
  have made := normalizeNode_binaryNode ctx (joined c.first c.middle) c.last.operand isName
  rw [← BooleanChain.node, isChain] at made
  obtain ⟨_, inside, -⟩ := map_eq_ok.1 made.symm
  obtain ⟨l, isLeft, inside⟩ := bind_eq_ok.1 inside
  obtain ⟨r, isRight, -⟩ := bind_eq_ok.1 inside
  obtain ⟨f', isForm', same⟩ := normalizeNode_link ctx c.last isLeft isRight
  obtain rfl : f = f' := Except.ok.inj (isChain.symm.trans isForm')
  have joins := (joinsNodes_normalizeNode ctx _ l isLeft).root
  have some : leftOperands tag (joined c.first c.middle) l ≠ [] := by
    rw [leftOperands]
    split
    · simp
    · exact operands_ne_nil (isBoolean_of_chainTag? isWord) joins
  obtain ⟨first, before, operands⟩ := List.exists_cons_of_ne_nil some
  rw [operands] at same
  exact ⟨first.unlined, before.map Form.unlined, r.unlined, (unlined_settle ctx _ f).trans same⟩

/-- Where the operands of a chain stand in its place, it does not stand there itself: its first
operand is there, and that is smaller. -/
theorem not_operandAt {f g first last final : Form} {others before more : List Form}
    (isChain : g.unlined = rightNest tag (first :: before) last)
    (same : f.unlined =
      rightNest tag (others ++ ((operands tag g.toItem).map Form.unlined ++ more)) final) :
    ¬ OperandAt tag others.length g f := by
  rintro ⟨others', rest, lengths, whole⟩
  rw [← operands_unlined, Form.toItem_unlined, isChain, operands_rightNest, rightNest_append]
    at same
  have there := rightNest_inj lengths.symm (same.symm.trans whole)
  have heads := (List.cons.inj (Form.mk.inj there).2.1).1
  rw [isChain] at heads
  have sizes := congrArg sizeOf heads
  simp [Form.toItem, Form.of] at sizes
  omega

/-- The operands between the ends of a chain are taken apart, and the last one is kept.

So a chain of the operator in parentheses does not stand whole in a chain that goes on after it,
though it would be the operand at its place if those before it are one operand each. -/
theorem BooleanChain.normalizeNode_takes_apart {ctx : Context} {head final : Form}
    {inits : List Form} (c : BooleanChain tag) (isHead : normalizeNode ctx c.first = .ok head)
    (areInits : forms normalizeNode ctx (c.middle.map Link.operand) = .ok inits)
    (isFinal : normalizeNode ctx c.last.operand = .ok final) :
    ∃ f, normalizeNode ctx c.node = .ok f ∧
      f.unlined = rightNest tag ((leftOperands tag c.first head ++
        inits.flatMap fun g => operands tag g.toItem).map Form.unlined) final.unlined ∧
      ∀ before link after, c.middle = before ++ link :: after → GroupedChain tag link.operand →
        c.first.is "paren" = true ∨ head.tag ≠ tag →
        ∀ others g, forms normalizeNode ctx (before.map Link.operand) = .ok others →
          (∀ h ∈ others, h.tag ≠ tag) → normalizeNode ctx link.operand = .ok g →
          ¬ OperandAt tag (before.length + 1) g f := by
  obtain ⟨f, isForm, same⟩ := c.normalizeNode_node isHead areInits isFinal
  refine ⟨f, isForm, same, ?_⟩
  intro before link after middle grouped single others g areOthers plain isOperand
  rw [middle, List.map_append, List.map_cons] at areInits
  obtain ⟨others', rest, rfl, areOthers', areRest⟩ := forms_append areInits
  obtain rfl : others = others' := Except.ok.inj (areOthers.symm.trans areOthers')
  obtain ⟨g', more, rfl, isOperand', -⟩ := forms_cons areRest
  obtain rfl : g = g' := Except.ok.inj (isOperand.symm.trans isOperand')
  obtain ⟨first, inside, last, isChain⟩ := grouped.exists_rightNest isOperand
  have place : ((head :: others).map Form.unlined).length = before.length + 1 := by
    simpa using length_forms areOthers
  have apart : f.unlined = rightNest tag ((head :: others).map Form.unlined ++
      ((operands tag g.toItem).map Form.unlined ++
        (more.flatMap fun h => operands tag h.toItem).map Form.unlined)) final.unlined := by
    rw [same, leftOperands_of_single single, List.flatMap_append, flatMap_operands_of_ne plain,
      List.flatMap_cons, List.singleton_append, ← List.cons_append, List.map_append,
      List.map_append]
  rw [← place]
  exact not_operandAt isChain apart

/-- `b && c` in parentheses. -/
def groupedAnd : Raw.Node :=
  ⟨"paren", [.node Raw.listTag [(binaryNode (callNode "b") (.sym "&&") (callNode "c")).toRaw]]⟩

/-- `a && (b && c) && d`. -/
def groupedMiddle : BooleanChain "and" where
  first := callNode "a"
  middle := [⟨.sym "&&", groupedAnd, "&&", rfl, rfl⟩]
  last := ⟨.sym "&&", callNode "d", "&&", rfl, rfl⟩

theorem groupedChain_groupedAnd : GroupedChain "and" groupedAnd :=
  .paren ⟨callNode "b", [], ⟨.sym "&&", callNode "c", "&&", rfl, rfl⟩⟩
    (.list [] [] (by decide) rfl rfl)

/-- The normal form of `b && c`. -/
def pairForm : Form :=
  ⟨"and", [(callForm "b").toItem, (callForm "c").toItem], some 1, none⟩

theorem normalizeNode_groupedAnd : normalizeNode exampleContext groupedAnd = .ok pairForm := by
  with_unfolding_all rfl

/-- `a && (b && c) && d` is `a && (b && (c && d))`. -/
theorem groupedMiddle_taken_apart :
    ∃ f, normalizeNode exampleContext groupedMiddle.node = .ok f ∧
      f.unlined = rightNest "and" [(callForm "a").unlined, (callForm "b").unlined,
        (callForm "c").unlined] (callForm "d").unlined ∧
      ¬ OperandAt "and" 1 pairForm f := by
  have areInits : forms normalizeNode exampleContext (groupedMiddle.middle.map Link.operand) =
      .ok [pairForm] := by
    with_unfolding_all rfl
  obtain ⟨f, isForm, same, apart⟩ := groupedMiddle.normalizeNode_takes_apart
    (normalizeNode_callNode "a") areInits (normalizeNode_callNode "d")
  refine ⟨f, isForm, same, ?_⟩
  exact apart [] _ [] rfl groupedChain_groupedAnd (.inr (by decide)) [] pairForm rfl (by simp)
    normalizeNode_groupedAnd

/-- Parentheses around an operand between the ends of a chain do not keep it whole. -/
theorem not_operandAt_of_groupedMiddle :
    ¬ ∀ (ctx : Context) (tag : String) (c : BooleanChain tag) (before after : List (Link tag))
        (link : Link tag) (f g : Form), c.middle = before ++ link :: after →
      GroupedChain tag link.operand → normalizeNode ctx c.node = .ok f →
      normalizeNode ctx link.operand = .ok g → OperandAt tag (before.length + 1) g f := by
  intro claimed
  have normal : normalizeNode exampleContext groupedMiddle.node =
      .ok ⟨"and", [(callForm "a").toItem, .node "and" [(callForm "b").toItem,
        .node "and" [(callForm "c").toItem, (callForm "d").toItem] none none] (some 1) none],
        some 1, none⟩ := by
    with_unfolding_all rfl
  obtain ⟨before, rest, one, whole⟩ := claimed exampleContext "and" groupedMiddle [] [] _ _ pairForm
    rfl groupedChain_groupedAnd normal normalizeNode_groupedAnd
  obtain ⟨x, rfl⟩ := List.length_eq_one_iff.1 one
  simp [Form.unlined, Form.toItem, Form.of, Item.unlinedAll, Item.unlined, callForm, pairForm]
    at whole

end Rules

end RubyNormalForm
