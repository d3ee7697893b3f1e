import RubyNormalForm.Proofs.Rules.Assigned
import RubyNormalForm.Proofs.Rules.Matching

/-!
# Operator assignments

`a += b` is `a = a + b`, and `a ||= b` is the read of `a` next to `a = b`. The target of an
assignment is read by a rule of its own, which knows variables and constants only; the node
that reads the same name may also be a keyword or a group of the last match. Neither of these
can be assigned to, so the two ways to read a target fail on the same assignments.
-/

namespace RubyNormalForm

namespace Rules

open Raw

/-! ### What the rules look at -/

section Locality

variable {k : Nat} {inner inner' : Normalizer} (agree : AgreeBelow k inner inner') (ctx : Context)
include agree

theorem rightSide_congr (ofList : List Form → Form) (ofValue : Form → Form) {n : Node}
    (le : n.size ≤ k) :
    rightSide ofList ofValue inner ctx n = rightSide ofList ofValue inner' ctx n := by
  have small : (n.slot 1).size < k := Nat.lt_of_lt_of_le (Node.size_slot_lt n 1) le
  simp only [rightSide]
  split
  · rename_i tag children found
    rw [found] at small
    rw [arguments_congr agree ctx small, agree ctx ⟨tag, children⟩ small]
  · rfl

theorem elementOperation_congr (operator : String) (value : Form) {n : Node} (le : n.size ≤ k) :
    elementOperation operator value inner ctx n = elementOperation operator value inner' ctx n := by
  have args := arguments_congr agree ctx (Nat.lt_of_lt_of_le (Node.size_slot_lt n 1) le)
  refine bind_congr_ok rfl ?_
  intro m found
  rw [agree ctx m (Nat.lt_of_lt_of_le (Node.size_of_nodeAt found) le), args]

theorem attributeOperation_congr (operator : String) (value : Form) {n : Node} (le : n.size ≤ k) :
    attributeOperation operator value inner ctx n =
      attributeOperation operator value inner' ctx n := by
  refine bind_congr_ok rfl ?_
  intro m found
  rw [agree ctx m (Nat.lt_of_lt_of_le (Node.size_of_nodeAt found) le)]

theorem variableOperation_congr (operator : String) (value : Form) {n : Node} (le : n.size ≤ k) :
    variableOperation operator value inner ctx n =
      variableOperation operator value inner' ctx n := by
  simp only [variableOperation, readTarget, constantPath_congr agree ctx _ le,
    assign_congr agree ctx _ le]

end Locality

theorem assignRule_localAt (ctx : Context) (n : Node) : Rule.LocalAt assignRule ctx n := by
  intro inner inner' agree
  refine bind_congr_ok rfl fun left isLeft => ?_
  refine bind_congr_ok (rightSide_congr agree ctx listValue id (Nat.le_refl _)) fun value _ => ?_
  exact assign_congr agree ctx (some value) (Nat.le_of_lt (Node.size_of_nodeAt isLeft))

theorem operatorAssignRule_localAt (ctx : Context) (n : Node) :
    Rule.LocalAt operatorAssignRule ctx n := by
  intro inner inner' agree
  refine bind_congr_ok rfl fun left isLeft => ?_
  refine bind_congr_ok rfl fun operator _ => ?_
  refine bind_congr_ok rfl fun right isRight => ?_
  refine bind_congr_ok (agree ctx right (Node.size_of_nodeAt isRight)) fun value _ => ?_
  have le := Nat.le_of_lt (Node.size_of_nodeAt isLeft)
  simp only [elementOperation_congr agree ctx _ value le,
    attributeOperation_congr agree ctx _ value le, variableOperation_congr agree ctx _ value le]

/-! ### Assignments of one value -/

/-- The assignment of a value to a target. -/
def assignNode (target value : Node) : Node :=
  ⟨"assign", [target.toRaw, value.toRaw]⟩

/-- The assignment of the result of an operation on a target and a value. -/
def operatorAssignNode (target : Node) (sign : Raw) (value : Node) : Node :=
  ⟨"opassign", [target.toRaw, sign, value.toRaw]⟩

/-- A value that is not a list is assigned as it is. -/
theorem normalizeNode_assignNode (ctx : Context) (t : Node) {v : Node} (single : v.isList = false) :
    (normalizeNode ctx (assignNode t v)).map Form.unlined =
      (normalizeNode ctx v >>= fun value =>
        assign normalizeNode ctx (some value) t).map Form.unlined := by
  have found : rule? (assignNode t v).tag = some assignRule := rfl
  have right : rightSide listValue id normalizeNode ctx (assignNode t v) = normalizeNode ctx v := by
    have single : (v.tag == listTag) = false := single
    change (if v.tag == listTag then _ else (normalizeNode ctx v).map id) = _
    rw [single]
    exact congrFun Except.map_id _
  rw [map_unlined_normalizeNode found (assignRule_localAt ctx _)]
  change Except.map Form.unlined (rightSide listValue id normalizeNode ctx (assignNode t v) >>=
    fun value => assign normalizeNode ctx (some value) t) = _
  rw [right]

/-- An operator assignment to neither an element nor an attribute. -/
theorem normalizeNode_operatorAssignNode (ctx : Context) {t : Node} (v : Node) {sign : Raw}
    {word : String} (isName : name sign = .ok word) (notElement : t.is "aref_field" = false)
    (notAttribute : t.is "field" = false) :
    (normalizeNode ctx (operatorAssignNode t sign v)).map Form.unlined =
      (normalizeNode ctx v >>= fun value =>
        variableOperation (withoutEquals word) value normalizeNode ctx t).map Form.unlined := by
  have found : rule? (operatorAssignNode t sign v).tag = some operatorAssignRule := rfl
  rw [map_unlined_normalizeNode found (operatorAssignRule_localAt ctx _)]
  refine congrArg _ ?_
  change (name sign >>= fun word => normalizeNode ctx v >>= fun value =>
    if t.is "aref_field" then _ else if t.is "field" then _ else _) = _
  rw [isName, notElement, notAttribute]
  rfl

theorem withoutEquals_append (operator : String) : withoutEquals (operator ++ "=") = operator := by
  simp [withoutEquals]

theorem unlined_assigned {v w : Form} (same : v.unlined = w.unlined) (f : Form) :
    (assigned (some v) f).unlined = (assigned (some w) f).unlined := by
  have items := congrArg Form.toItem same
  rw [← Form.toItem_unlined, ← Form.toItem_unlined] at items
  simp only [assigned, Form.push?, Form.push, Form.unlined, Item.unlinedAll_append,
    Item.unlinedAll, items]

/-- The lines of a value matter to nothing but the lines of its assignment. -/
theorem unlined_target {v w : Form} (same : v.unlined = w.unlined) (inner : Normalizer)
    (ctx : Context) (r : Raw) :
    (target inner ctx (some v) r).map Form.unlined =
      (target inner ctx (some w) r).map Form.unlined := by
  cases r with
  | node tag children =>
    have leaf : ((leafTarget inner ctx ⟨tag, children⟩).map (assigned (some v))).map Form.unlined =
        ((leafTarget inner ctx ⟨tag, children⟩).map (assigned (some w))).map Form.unlined := by
      cases leafTarget inner ctx ⟨tag, children⟩ with
      | error e => rfl
      | ok f => exact congrArg Except.ok (unlined_assigned same f)
    -- only a variable hands the value on; lists and splats hold targets without one
    cases children with
    | nil =>
      simp only [target]
      split
      · rfl
      split
      · rfl
      split
      · rfl
      · exact leaf
    | cons first rest =>
      have inside := unlined_target same inner ctx first
      simp only [target]
      split
      · split
        · rfl
        split
        · rfl
        · exact inside
      split
      · rfl
      split
      · rfl
      · exact leaf
  | _ => rfl

theorem unlined_assign {v w : Form} (same : v.unlined = w.unlined) (inner : Normalizer)
    (ctx : Context) (t : Node) :
    (assign inner ctx (some v) t).map Form.unlined =
      (assign inner ctx (some w) t).map Form.unlined :=
  unlined_target same inner ctx t.toRaw

/-- An assignment that stands next to something else, with its value normalised apart. -/
theorem normalizeNode_beside (ctx : Context) (read t : Node) {v : Node} (single : v.isList = false)
    (tag : String) :
    Except.map Form.unlined (do
        let current ← normalizeNode ctx read
        let assignment ← normalizeNode ctx (assignNode t v)
        return .of tag [current.toItem, assignment.toItem]) =
      Except.map Form.unlined (do
        let current ← normalizeNode ctx read
        let value ← normalizeNode ctx v
        let assignment ← assign normalizeNode ctx (some value) t
        return .of tag [current.toItem, assignment.toItem]) := by
  cases normalizeNode ctx read with
  | error e => rfl
  | ok current =>
    rw [ok_bind, ok_bind, ← bind_assoc]
    refine bind_map_congr (normalizeNode_assignNode ctx t single) ?_
    intro f g same
    refine congrArg Except.ok ?_
    simp only [Form.unlined_of, Item.unlinedAll, Form.toItem_unlined, same]

/-! ### Reads of targets -/

/-- The tags of the targets that can be read, with those of the nodes that read them. -/
def readTags : List (String × String) :=
  [("var_field", "var_ref"), ("const_path_field", "const_path_ref"),
   ("top_const_field", "top_const_ref")]

theorem readToken_of_readTag? (ctx : Context) {t : Token} {tag : String}
    (found : readTag? t.kind = some tag) :
    readToken ctx t = .ok ((Form.of tag [.sym t.text]).withLine (some (ctx.line t.line))) := by
  rw [readTag?] at found
  rw [readToken]
  split at found
  · rename_i isIdentifier
    cases found
    rw [if_pos isIdentifier]
    rfl
  · rename_i notIdentifier
    split at found
    · rename_i isVariable
      cases found
      rw [if_neg notIdentifier, if_pos isVariable]
      rfl
    · cases found

/-- What can be assigned to can be read. -/
theorem exists_readTag? {ctx : Context} {kind tag : String}
    (found : assignmentTag? ctx kind = some tag) : ∃ tag', readTag? kind = some tag' := by
  rw [← Option.isSome_iff_exists]
  simp only [assignmentTag?] at found
  simp only [readTag?]
  grind

theorem outcome_constantPath_mk (top : Bool) (inner : Normalizer) (ctx : Context)
    (tag tag' : String) (children : List Raw) :
    outcome (constantPath top inner ctx ⟨tag, children⟩) =
      outcome (constantPath top inner ctx ⟨tag', children⟩) := by
  cases top with
  | true => rfl
  | false =>
    simp only [constantPath, Bool.false_eq_true, if_false, outcome_bind,
      outcome_nodeAt_mk tag tag' children 0]
    rfl

/-- A token takes a value itself, for it is none of the targets that hold others. -/
theorem assign_token {n : Node} {t : Token} (isToken : token n = .ok t) (inner : Normalizer)
    (ctx : Context) (value : Option Form) :
    assign inner ctx value n = (tokenTarget ctx n).map (assigned value) := by
  have marked : n.isToken = true := by
    rw [token] at isToken
    split at isToken
    · assumption
    · cases isToken
  have other {tag : String} (unmarked : tag.toList.head? ≠ some '@') : (n.tag == tag) = false := by
    rw [beq_eq_false_iff_ne]
    rintro rfl
    exact unmarked (eq_of_beq marked)
  have notRest : isRestTag n.tag = false := by
    rw [isRestTag, other (by simp), other (by simp)]
    rfl
  calc
    assign inner ctx value n = (leafTarget inner ctx n).map (assigned value) :=
      target_leaf (other (by simp)) (other (by simp)) notRest value n.children
    _ = _ := by rw [leafTarget, if_pos marked]

section Reads

variable {ctx : Context} {field reference : String} {children : List Raw}

theorem exists_cons_of_nodeAt {tag : String} {n : Node}
    (found : Node.nodeAt ⟨tag, children⟩ 0 = .ok n) : ∃ rest, children = n.toRaw :: rest := by
  cases children with
  | nil => cases found
  | cons first rest =>
    cases first with
    | node _ _ =>
      cases found
      exact ⟨rest, rfl⟩
    | _ => cases found

theorem normalizeNode_variable (ctx : Context) (children : List Raw) :
    (normalizeNode ctx ⟨"var_ref", children⟩).map Form.unlined =
      (Node.nodeAt ⟨"var_ref", children⟩ 0 >>= fun n =>
        token n >>= readToken ctx).map Form.unlined := by
  have found : rule? "var_ref" = some referenceRule := rfl
  have isLocal : Rule.LocalAt referenceRule ctx ⟨"var_ref", children⟩ := fun _ _ _ => rfl
  exact map_unlined_normalizeNode found isLocal

/-- A path of constants is read alike as a target. -/
theorem outcome_normalizeNode_constantPath (ctx : Context) (field : String) (children : List Raw)
    {top : Bool} (found : rule? reference = some (constantPath top)) :
    outcome ((normalizeNode ctx ⟨reference, children⟩).map Form.unlined) =
      outcome ((constantPath top normalizeNode ctx ⟨field, children⟩).map Form.unlined) := by
  have isLocal : Rule.LocalAt (constantPath top) ctx ⟨reference, children⟩ :=
    fun _ _ agree => constantPath_congr agree ctx top (Nat.le_refl _)
  rw [map_unlined_normalizeNode found isLocal, outcome_map, outcome_map,
    outcome_constantPath_mk top normalizeNode ctx reference field]

theorem variable_or_constant (pair : (field, reference) ∈ readTags) :
    (field = "var_field" ∧ reference = "var_ref") ∨
      ∃ top, rule? reference = some (constantPath top) ∧ ∀ inner ctx children,
        readTarget inner ctx ⟨field, children⟩ = constantPath top inner ctx ⟨field, children⟩ := by
  simp only [readTags, List.mem_cons, Prod.mk.injEq, List.not_mem_nil, or_false] at pair
  obtain ⟨rfl, rfl⟩ | ⟨rfl, rfl⟩ | ⟨rfl, rfl⟩ := pair
  · exact .inl ⟨rfl, rfl⟩
  · exact .inr ⟨false, rfl, fun _ _ _ => rfl⟩
  · exact .inr ⟨true, rfl, fun _ _ _ => rfl⟩

/-- The read of a target is what the node that reads it becomes. -/
theorem normalizeNode_of_readTarget (pair : (field, reference) ∈ readTags) {f : Form}
    (isRead : readTarget normalizeNode ctx ⟨field, children⟩ = .ok f) :
    (normalizeNode ctx ⟨reference, children⟩).map Form.unlined = .ok f.unlined := by
  obtain ⟨rfl, rfl⟩ | ⟨top, found, isPath⟩ := variable_or_constant pair
  · obtain ⟨n, isNode, inside⟩ := bind_eq_ok.1 isRead
    obtain ⟨t, isToken, isForm⟩ := bind_eq_ok.1 inside
    obtain ⟨rest, rfl⟩ := exists_cons_of_nodeAt isNode
    rw [normalizeNode_variable]
    change (token n >>= readToken ctx).map Form.unlined = _
    split at isForm
    · rename_i tag isTag
      cases isForm
      rw [isToken, ok_bind, readToken_of_readTag? ctx isTag]
      rfl
    · cases isForm
  · rw [isPath] at isRead
    rw [← outcome_eq_some, outcome_normalizeNode_constantPath ctx field children found, isRead]
    rfl

/-- A target that takes a value can be read if the node that reads it has a normal form. -/
theorem exists_readTarget_of_assign (pair : (field, reference) ∈ readTags) {value : Option Form}
    {f g : Form} (isNormal : normalizeNode ctx ⟨reference, children⟩ = .ok g)
    (isAssigned : assign normalizeNode ctx value ⟨field, children⟩ = .ok f) :
    ∃ h, readTarget normalizeNode ctx ⟨field, children⟩ = .ok h := by
  obtain ⟨rfl, rfl⟩ | ⟨top, found, isPath⟩ := variable_or_constant pair
  · have isVariable := normalizeNode_variable ctx children
    rw [isNormal] at isVariable
    obtain ⟨_, isForm, -⟩ := map_eq_ok.1 isVariable.symm
    obtain ⟨n, isNode, inside⟩ := bind_eq_ok.1 isForm
    obtain ⟨t, isToken, -⟩ := bind_eq_ok.1 inside
    obtain ⟨rest, rfl⟩ := exists_cons_of_nodeAt isNode
    have isAssigned : assign normalizeNode ctx value n = .ok f := isAssigned
    rw [assign_token isToken, tokenTarget, isToken, ok_bind] at isAssigned
    split at isAssigned
    · rename_i tag isTag
      obtain ⟨tag', isRead⟩ := exists_readTag? isTag
      refine ⟨(Form.of tag' [.sym t.text]).withLine (ctx.lineOf n), ?_⟩
      change (token n >>= fun t => _) = _
      rw [isToken, ok_bind, isRead]
      rfl
    · cases isAssigned
  · have same := outcome_normalizeNode_constantPath ctx field children found
    rw [isNormal, ← isPath] at same
    obtain ⟨h, isRead, -⟩ := map_eq_ok.1 (outcome_eq_some.1 same.symm)
    exact ⟨h, isRead⟩

/-- A read of a target can be replaced by the node that reads it where the target is assigned
to as well. -/
theorem outcome_readTarget_bind (pair : (field, reference) ∈ readTags)
    {next next' : Form → Result Form}
    (alike : ∀ f g : Form, f.unlined = g.unlined →
      outcome ((next f).map Form.unlined) = outcome ((next' g).map Form.unlined))
    (assigns : ∀ g h, next' g = .ok h →
      ∃ value f, assign normalizeNode ctx value ⟨field, children⟩ = .ok f) :
    outcome ((readTarget normalizeNode ctx ⟨field, children⟩ >>= next).map Form.unlined) =
      outcome ((normalizeNode ctx ⟨reference, children⟩ >>= next').map Form.unlined) := by
  cases isRead : readTarget normalizeNode ctx ⟨field, children⟩ with
  | ok f =>
    obtain ⟨g, isNormal, same⟩ := map_eq_ok.1 (normalizeNode_of_readTarget pair isRead)
    rw [isNormal]
    exact alike f g same.symm
  | error e =>
    cases isNormal : normalizeNode ctx ⟨reference, children⟩ with
    | error e => rfl
    | ok g =>
      cases done : next' g with
      | error e =>
        rw [ok_bind, done]
        rfl
      | ok h =>
        obtain ⟨value, f, isAssigned⟩ := assigns g h done
        obtain ⟨f, readable⟩ := exists_readTarget_of_assign pair isNormal isAssigned
        rw [isRead] at readable
        cases readable

end Reads

/-! ### Operator assignments as assignments -/

/-- The operators that are calls and can be joined with an equals sign. -/
def callOperators : List String :=
  ["+", "-", "*", "/", "%", "**", "&", "|", "^", "<<", ">>"]

/-- The boolean operators, with the tags of their assignments. -/
def booleanAssignments : List (String × String) :=
  [("||", "op_asgn_or"), ("&&", "op_asgn_and")]

theorem binary_of_mem {operator : String} (member : operator ∈ callOperators) (grouped : Bool)
    (l r : Form) :
    binary operator grouped l r = .of "call" [l.toItem, .sym operator, r.toItem] := by
  simp only [callOperators, List.mem_cons, List.not_mem_nil, or_false] at member
  rcases member with rfl | rfl | rfl | rfl | rfl | rfl | rfl | rfl | rfl | rfl | rfl <;>
    simp [binary]

theorem variableOperation_of_mem {operator : String} (member : operator ∈ callOperators)
    (value : Form) (inner : Normalizer) (ctx : Context) (n : Node) :
    variableOperation operator value inner ctx n =
      (readTarget inner ctx n >>= fun read =>
        assign inner ctx (some ((Form.of "call"
          [read.toItem, .sym operator, value.toItem]).withLine read.line)) n) := by
  have notOr : operator ≠ "||" := by
    rintro rfl
    revert member
    decide
  have notAnd : operator ≠ "&&" := by
    rintro rfl
    revert member
    decide
  simp [variableOperation, notOr, notAnd]

theorem variableOperation_boolean {operator tag : String}
    (pair : (operator, tag) ∈ booleanAssignments) (value : Form) (inner : Normalizer)
    (ctx : Context) (n : Node) :
    variableOperation operator value inner ctx n =
      (readTarget inner ctx n >>= fun read =>
        assign inner ctx (some value) n >>= fun assignment =>
          return Form.of tag [read.toItem, assignment.toItem]) := by
  simp only [booleanAssignments, List.mem_cons, Prod.mk.injEq, List.not_mem_nil, or_false] at pair
  obtain ⟨rfl, rfl⟩ | ⟨rfl, rfl⟩ := pair
  · simp [variableOperation]
  · simp [variableOperation]

section Operations

variable {ctx : Context} {field reference : String} {children : List Raw}

/-- An operation on a target stores the call on its read. -/
theorem outcome_variableOperation_call (pair : (field, reference) ∈ readTags) {operator : String}
    (member : operator ∈ callOperators) (grouped : Bool) (value : Form) :
    outcome ((variableOperation operator value normalizeNode ctx
        ⟨field, children⟩).map Form.unlined) =
      outcome ((normalizeNode ctx ⟨reference, children⟩ >>= fun current =>
        assign normalizeNode ctx (some (binary operator grouped current value))
          ⟨field, children⟩).map Form.unlined) := by
  rw [variableOperation_of_mem member]
  refine outcome_readTarget_bind pair ?_ (fun g h done => ⟨_, h, done⟩)
  intro f g same
  refine congrArg outcome (unlined_assign ?_ normalizeNode ctx _)
  rw [binary_of_mem member]
  simp only [Form.unlined_withLine, Form.unlined_of, Item.unlinedAll, Form.toItem_unlined, same]

/-- A boolean operation on a target puts its read next to the assignment. -/
theorem outcome_variableOperation_boolean (pair : (field, reference) ∈ readTags)
    {operator tag : String} (member : (operator, tag) ∈ booleanAssignments) (value : Form) :
    outcome ((variableOperation operator value normalizeNode ctx
        ⟨field, children⟩).map Form.unlined) =
      outcome ((normalizeNode ctx ⟨reference, children⟩ >>= fun current =>
        assign normalizeNode ctx (some value) ⟨field, children⟩ >>= fun assignment =>
          return Form.of tag [current.toItem, assignment.toItem]).map Form.unlined) := by
  rw [variableOperation_boolean member]
  refine outcome_readTarget_bind pair ?_ ?_
  · intro f g same
    cases assign normalizeNode ctx (some value) ⟨field, children⟩ with
    | error e => rfl
    | ok h =>
      refine congrArg some ?_
      simp only [Form.unlined_of, Item.unlinedAll, Form.toItem_unlined, same]
  · intro g h done
    obtain ⟨f, isAssigned, -⟩ := bind_eq_ok.1 done
    exact ⟨some value, f, isAssigned⟩

end Operations

theorem not_field_of_mem {field reference : String} (pair : (field, reference) ∈ readTags)
    (children : List Raw) :
    (Node.mk field children).is "aref_field" = false ∧
      (Node.mk field children).is "field" = false := by
  simp only [readTags, List.mem_cons, Prod.mk.injEq, List.not_mem_nil, or_false] at pair
  obtain ⟨rfl, -⟩ | ⟨rfl, -⟩ | ⟨rfl, -⟩ := pair <;> exact ⟨rfl, rfl⟩

/-- An operator assignment to a variable or a constant is the assignment of the operation on its
read, and one with a boolean operator holds the read and the assignment. It fails where these
fail. -/
theorem normalizeNode_operator_assignment (ctx : Context) {field reference : String}
    (pair : (field, reference) ∈ readTags) (children : List Raw) (sign : Raw) (v : Node) :
    let target : Node := ⟨field, children⟩
    let read : Node := ⟨reference, children⟩
    let operation := normalizeNode ctx (operatorAssignNode target sign v)
    (∀ op ∈ callOperators, name sign = .ok (op ++ "=") →
      ∀ operator, name operator = .ok op →
        outcome (operation.map Form.unlined) =
          outcome ((normalizeNode ctx
            (assignNode target (binaryNode read operator v))).map Form.unlined)) ∧
    (v.isList = false → ∀ op tag, (op, tag) ∈ booleanAssignments → name sign = .ok (op ++ "=") →
      outcome (operation.map Form.unlined) =
        outcome (Except.map Form.unlined (do
          let current ← normalizeNode ctx read
          let assignment ← normalizeNode ctx (assignNode target v)
          return .of tag [current.toItem, assignment.toItem]))) := by
  intro target read operation
  obtain ⟨notElement, notAttribute⟩ := not_field_of_mem pair children
  have isOperation {op : String} (isSign : name sign = .ok (op ++ "=")) :
      operation.map Form.unlined = (normalizeNode ctx v >>= fun value =>
        variableOperation op value normalizeNode ctx target).map Form.unlined := by
    rw [← withoutEquals_append op]
    exact normalizeNode_operatorAssignNode ctx v isSign notElement notAttribute
  constructor
  · intro op member isSign operator isOperator
    have isBinary := normalizeNode_binaryNode ctx read v isOperator
    have assigned := bind_map_congr isBinary
      (f := fun value => assign normalizeNode ctx (some value) target)
      (fun _ _ same => unlined_assign same normalizeNode ctx target)
    rw [isOperation isSign, normalizeNode_assignNode ctx target rfl, assigned]
    simp only [bind_assoc, pure_bind]
    cases normalizeNode ctx v with
    | error e => cases normalizeNode ctx read <;> rfl
    | ok value => exact outcome_variableOperation_call pair member (read.is "paren") value
  · intro single op tag member isSign
    rw [isOperation isSign, normalizeNode_beside ctx read target single]
    cases normalizeNode ctx v with
    | error e => cases normalizeNode ctx read <;> rfl
    | ok value => exact outcome_variableOperation_boolean pair member value

/-- The parts of `A::B`, read or assigned to. -/
def pathParts : List Raw :=
  [.node "var_ref" [.node "@const" [.str "A", .pos 1 0]], .node "@const" [.str "B", .pos 1 3]]

/-- The parts of `@a`, read or assigned to. -/
def variableParts : List Raw :=
  [.node "@ivar" [.str "@a", .pos 1 0]]

/-- An operator with its equals sign. -/
def signOf (text : String) : Raw :=
  .node "@op" [.str text, .pos 1 5]

/-- `A::B <<= c` is `A::B = A::B << c`, and `@a ||= c` holds `@a` and `@a = c`. -/
theorem operator_assignment_to_path_and_variable :
    (∃ f, normalizeNode exampleContext
        (operatorAssignNode ⟨"const_path_field", pathParts⟩ (signOf "<<=") (callNode "c")) = .ok f ∧
      outcome ((normalizeNode exampleContext (assignNode ⟨"const_path_field", pathParts⟩
        (binaryNode ⟨"const_path_ref", pathParts⟩ (.sym "<<") (callNode "c")))).map Form.unlined) =
        some f.unlined) ∧
    outcome ((normalizeNode exampleContext (operatorAssignNode ⟨"var_field", variableParts⟩
        (signOf "||=") (callNode "c"))).map Form.unlined) =
      some (.of "op_asgn_or" [(Form.of "ivar" [.sym "@a"]).toItem,
        (Form.of "iasgn" [.sym "@a", (callForm "c").unlined.toItem]).toItem]) := by
  constructor
  · have normal : ∃ f, normalizeNode exampleContext (operatorAssignNode
        ⟨"const_path_field", pathParts⟩ (signOf "<<=") (callNode "c")) = .ok f :=
      ⟨_, by with_unfolding_all rfl⟩
    obtain ⟨f, isNormal⟩ := normal
    have pair : ("const_path_field", "const_path_ref") ∈ readTags := by decide
    have isSign : name (signOf "<<=") = .ok ("<<" ++ "=") := by with_unfolding_all rfl
    have same := (normalizeNode_operator_assignment exampleContext pair pathParts (signOf "<<=")
      (callNode "c")).1 "<<" (by decide) isSign (.sym "<<") rfl
    rw [isNormal] at same
    exact ⟨f, isNormal, same.symm⟩
  · have pair : ("var_field", "var_ref") ∈ readTags := by decide
    have isSign : name (signOf "||=") = .ok ("||" ++ "=") := by with_unfolding_all rfl
    have same := (normalizeNode_operator_assignment exampleContext pair variableParts
      (signOf "||=") (callNode "c")).2 rfl "||" "op_asgn_or" (by decide) isSign
    refine same.trans ?_
    with_unfolding_all rfl

end Rules

end RubyNormalForm
