import RubyNormalForm.Proofs.Rules.Composition.Basic

/-!
# What becomes of an assignment

Each class variable on the left side of an assignment, at any depth, becomes an assignment to
it. Its tag is the one for the scope of the surroundings, and its line is that of the token. The
same goes for the variable that a rescue clause binds.

Bodies wrap, group and raise the lines of their statements, but they lose none of the
assignments in them.
-/

namespace RubyNormalForm

open Raw Rules

/-- The node assigns to the class variable of a token, in the scope of the surroundings. -/
structure Form.Assigns (ctx : Context) (t : Token) (g : Form) : Prop where
  tag : g.tag = classVariableTag ctx.inMethodBody
  name : g.items.head? = some (.sym t.text)
  line : g.line = some (ctx.line t.line)

theorem Item.eq_sym_of_unlined {x : Item} {name : String} (h : x.unlined = .sym name) :
    x = .sym name := by
  cases x <;> first | exact h | cases h

theorem lineFree_assigns (ctx : Context) (t : Token) : LineFree (Form.Assigns ctx t) := by
  intro f g filled h
  refine ⟨filled.tag.trans h.tag, ?_, filled.line _ h.line⟩
  have heads : (g.items.head?).map Item.unlined = (f.items.head?).map Item.unlined := by
    rw [← List.head?_map, ← List.head?_map, ← Item.unlinedAll_eq_map, ← Item.unlinedAll_eq_map,
      filled.items]
  rw [h.name] at heads
  obtain ⟨x, isHead, isName⟩ := Option.map_eq_some_iff.1 heads
  rw [isHead, Item.eq_sym_of_unlined isName]

/-! ### Targets -/

mutual

/-- The class variables that a target assigns to. -/
def Raw.classVariables : Raw → List Token
  | .node tag children =>
    if tag == "var_field" || isRestTag tag then
      match children with
      | [] => []
      | child :: _ => child.classVariables
    else if tag == "mlhs" then classVariablesIn children
    else
      match token ⟨tag, children⟩ with
      | .ok t => if t.kind == "cvar" then [t] else []
      | .error _ => []
  | _ => []

/-- The class variables that the targets of a list assign to. -/
def Raw.classVariablesIn : List Raw → List Token
  | [] => []
  | child :: rest => child.classVariables ++ Raw.classVariablesIn rest

end

theorem classVariables_of_isAbsent {r : Raw} (absent : r.isAbsent = true) :
    r.classVariables = [] := by
  cases r <;> first | rfl | cases absent

section Assignments

variable {inner : Normalizer} {ctx : Context} {t : Token}

/-- The token of a class variable becomes an assignment to it. -/
theorem has_leafTarget {n : Node} (isToken : token n = .ok t) (isVariable : t.kind = "cvar")
    (value : Option Form) :
    Ensures ((leafTarget inner ctx n).map (assigned value)) (Form.Has (Form.Assigns ctx t)) := by
  have marked : n.isToken = true := by
    rw [token] at isToken
    split at isToken
    · assumption
    · cases isToken
  have assignment : assignmentTag? ctx t.kind = some (classVariableTag ctx.inMethodBody) := by
    rw [isVariable]
    rfl
  rw [ensures_map, leafTarget, if_pos marked, tokenTarget, isToken, ok_bind, assignment]
  refine (ensures_pure _).2 (.root ?_)
  cases value with
  | none => exact ⟨rfl, rfl, rfl⟩
  | some g => exact ⟨rfl, rfl, rfl⟩

theorem has_array {forms : List Form} (has : ∃ f ∈ forms, f.Has (Form.Assigns ctx t)) :
    (array forms).Has (Form.Assigns ctx t) := by
  obtain ⟨f, member, has⟩ := has
  exact has.of_mem (List.mem_map_of_mem member)

theorem target_mlhs (value : Option Form) (children : List Raw) :
    target inner ctx value (.node "mlhs" children) =
      (targets inner ctx children >>= fun inside =>
        pure (.of "masgn" [(array inside).toItem])) := by
  cases children <;> rfl

theorem target_leaf {tag : String} (notField : (tag == "var_field") = false)
    (notList : (tag == "mlhs") = false) (notRest : isRestTag tag = false) (value : Option Form)
    (children : List Raw) :
    target inner ctx value (.node tag children) =
      (leafTarget inner ctx ⟨tag, children⟩).map (assigned value) := by
  cases children <;> simp [target, notField, notList, notRest]

mutual

theorem has_target (child : Raw) (member : t ∈ child.classVariables) (value : Option Form) :
    Ensures (target inner ctx value child) (Form.Has (Form.Assigns ctx t)) := by
  cases child with
  | node tag children =>
    rw [Raw.classVariables.eq_def] at member
    dsimp only at member
    split at member
    · rename_i marks
      cases children with
      | nil => cases member
      | cons first rest =>
        have member : t ∈ first.classVariables := member
        have inside (value : Option Form) := has_target first member value
        rw [target]
        split
        · split
          · exact ensures_error _
          split
          · exact ensures_error _
          · exact inside value
        split
        · rename_i isList
          rw [eq_of_beq isList] at marks
          cases marks
        split
        · split
          · rename_i absent
            rw [classVariables_of_isAbsent absent] at member
            cases member
          split
          · exact ensures_error _
          · simp only [ensures_bind, ensures_pure]
            exact (inside none).mono fun f has => has.of_mem (by simp [Form.of])
        · simp_all
    · rename_i unmarked
      simp only [Bool.or_eq_true, not_or, Bool.not_eq_true] at unmarked
      split at member
      · rename_i isList
        rw [eq_of_beq isList, target_mlhs]
        simp only [ensures_bind, ensures_pure]
        refine (has_targets children member).mono fun forms has => ?_
        exact (has_array has).of_mem (by simp [Form.of])
      · rename_i notList
        rw [target_leaf unmarked.1 (Bool.not_eq_true _ ▸ notList) unmarked.2]
        split at member
        · rename_i token isToken
          split at member
          · rename_i isVariable
            obtain rfl := List.mem_singleton.1 member
            exact has_leafTarget isToken (eq_of_beq isVariable) value
          · cases member
        · cases member
  | _ => cases member

theorem has_targets (children : List Raw) (member : t ∈ Raw.classVariablesIn children) :
    Ensures (targets inner ctx children)
      (fun forms => ∃ f ∈ forms, f.Has (Form.Assigns ctx t)) := by
  cases children with
  | nil => cases member
  | cons child rest =>
    rw [Raw.classVariablesIn, List.mem_append] at member
    rw [targets]
    split
    · rename_i absent
      rw [classVariables_of_isAbsent absent] at member
      obtain here | there := member
      · cases here
      · exact has_targets rest there
    · simp only [ensures_bind, ensures_pure, List.exists_mem_cons_iff]
      obtain here | there := member
      · exact (has_target child here none).mono fun f has => .of_forall fun forms => .inl has
      · exact .of_forall fun f => (has_targets rest there).mono fun forms has => .inr has

end

/-- The class variables on the left side of an assignment. -/
def Raw.Node.leftVariables (n : Node) : List Token :=
  if isTargetList n then Raw.classVariablesIn n.children else n.toRaw.classVariables

/-- A list is not a target by itself. -/
theorem has_assign {n : Node} (member : t ∈ n.leftVariables) (value : Option Form) :
    Ensures (assign inner ctx value n) (Form.Has (Form.Assigns ctx t)) := by
  obtain ⟨tag, children⟩ := n
  rw [Node.leftVariables] at member
  rw [assign]
  split at member
  · rename_i isList
    simp only [isTargetList, Node.isList, Node.is, Bool.or_eq_true, beq_iff_eq] at isList
    obtain rfl | rfl := isList
    · rw [Node.toRaw, target_leaf rfl rfl rfl, ensures_map]
      simp [leafTarget, Node.isToken, Node.is, listTag]
    · refine has_target _ ?_ value
      rw [Node.toRaw, Raw.classVariables.eq_def]
      exact member
  · exact has_target _ member value

theorem has_leftSide {n : Node} (member : t ∈ n.leftVariables) :
    Ensures (leftSide inner ctx n) (fun forms => ∃ f ∈ forms, f.Has (Form.Assigns ctx t)) := by
  rw [leftSide]
  split
  · rename_i isList
    rw [Node.leftVariables, if_pos isList] at member
    exact has_targets n.children member
  · rw [ensures_map]
    exact (has_assign member none).mono fun f has => ⟨f, by simp, has⟩

theorem has_loopVariable {n : Node} (member : t ∈ n.leftVariables) :
    Ensures (loopVariable inner ctx n) (Form.Has (Form.Assigns ctx t)) := by
  rw [loopVariable]
  split
  · simp only [ensures_bind, ensures_pure]
    refine (has_leftSide member).mono fun forms has => ?_
    exact (has_array has).of_mem (by simp [Form.of])
  · exact has_assign member none

/-- The operation of an assignment to an element or an attribute assigns to no variable. -/
theorem leftVariables_of_field {n : Node} (isField : n.tag = "aref_field" ∨ n.tag = "field") :
    n.leftVariables = [] := by
  have noToken : token n = .error (.malformed n.tag .notToken) := by
    rw [token, Node.isToken]
    obtain isField | isField := isField <;> rw [isField] <;> rfl
  obtain ⟨tag, children⟩ := n
  rw [Node.leftVariables, Node.toRaw, Raw.classVariables.eq_def]
  simp only [noToken]
  obtain rfl | rfl := isField <;> rfl

section Rules

variable {n left : Node} (isLeft : n.nodeAt 0 = .ok left) (member : t ∈ left.leftVariables)
include isLeft member

theorem has_assignRule : Ensures (assignRule inner ctx n) (Form.Has (Form.Assigns ctx t)) := by
  simp only [assignRule, isLeft, ok_bind, ensures_bind]
  exact .of_forall fun value => has_assign member (some value)

theorem has_multipleAssignRule :
    Ensures (multipleAssignRule inner ctx n) (Form.Has (Form.Assigns ctx t)) := by
  simp only [multipleAssignRule, isLeft, ok_bind, ensures_bind, ensures_pure]
  refine (has_leftSide member).mono fun forms has => .of_forall fun right => ?_
  exact (has_array has).of_mem (by simp [Form.of])

omit isLeft in
theorem has_variableOperation (operator : String) (value : Form) :
    Ensures (variableOperation operator value inner ctx left) (Form.Has (Form.Assigns ctx t)) := by
  simp only [variableOperation, ensures_bind]
  refine .of_forall fun read => ?_
  split
  · simp only [ensures_bind, ensures_pure]
    exact (has_assign member _).mono fun f has => has.of_mem (by simp [Form.of])
  split
  · simp only [ensures_bind, ensures_pure]
    exact (has_assign member _).mono fun f has => has.of_mem (by simp [Form.of])
  · exact has_assign member _

theorem has_operatorAssignRule :
    Ensures (operatorAssignRule inner ctx n) (Form.Has (Form.Assigns ctx t)) := by
  simp only [operatorAssignRule, isLeft, ok_bind, ensures_bind]
  refine .of_forall fun operator => .of_forall fun m => .of_forall fun value => ?_
  split
  · rename_i isElement
    rw [leftVariables_of_field (.inl (eq_of_beq isElement))] at member
    cases member
  split
  · rename_i isAttribute
    rw [leftVariables_of_field (.inr (eq_of_beq isAttribute))] at member
    cases member
  · exact has_variableOperation member _ value

theorem has_forLoop : Ensures (forLoop inner ctx n) (Form.Has (Form.Assigns ctx t)) := by
  simp only [forLoop, isLeft, ok_bind, ensures_bind, ensures_pure]
  refine (has_loopVariable member).mono fun f has => .of_forall fun m => .of_forall fun range => ?_
  refine .of_forall fun inside => has.of_mem ?_
  cases inside <;> simp [Form.of, Form.push?, Form.push]

end Rules

/-- What the rule of a node ensures, given normal forms of smaller nodes, holds of its normal
form. -/
theorem ensures_normalizeNode {n : Node} {post : Form → Prop}
    (each : ∀ rule inner, rule? n.tag = some rule →
      (∀ c m f, inner c m = .ok f → normalizeNode c m = .ok f) →
      Ensures (rule inner ctx n) fun f => post (settle ctx n f)) :
    Ensures (normalizeNode ctx n) post := by
  rw [normalizeNode_eq, normalizeStep]
  split
  · exact ensures_error _
  · rename_i rule found
    rw [ensures_map]
    refine each rule _ found fun c m f isForm => ?_
    split at isForm
    · exact isForm
    · cases isForm

/-- The class variables that an assignment or a loop assigns to by itself. -/
def Raw.Node.assignedVariables (n : Node) : List Token :=
  if n.tag ∈ ["assign", "opassign", "massign", "for"] then
    (n.child? 0).toList.flatMap Node.leftVariables
  else []

theorem has_normalizeNode {n : Node} (member : t ∈ n.assignedVariables) :
    Ensures (normalizeNode ctx n) (Form.Has (Form.Assigns ctx t)) := by
  rw [Node.assignedVariables] at member
  split at member
  · rename_i isTag
    simp only [List.mem_flatMap, Option.mem_toList] at member
    obtain ⟨left, isLeft, member⟩ := member
    have isLeft : n.nodeAt 0 = .ok left := Node.nodeAt_of_child? isLeft
    refine ensures_normalizeNode fun rule inner found _ => ?_
    have has : Ensures (rule inner ctx n) (Form.Has (Form.Assigns ctx t)) := by
      simp only [List.mem_cons, List.not_mem_nil, or_false] at isTag
      obtain isTag | isTag | isTag | isTag := isTag
      all_goals
        rw [isTag] at found
        obtain rfl := Option.some.inj found
      · exact has_assignRule isLeft member
      · exact has_operatorAssignRule isLeft member
      · exact has_multipleAssignRule isLeft member
      · exact has_forLoop isLeft member
    exact has.mono fun f has => has.settle (lineFree_assigns ctx t) ctx n
  · cases member

end Assignments

/-! ### What a body keeps -/

namespace Form

/-- Every assignment to a class variable in the first node is in the second one as well. -/
def KeptIn (f g : Form) : Prop :=
  ∀ ctx t, f.Has (Assigns ctx t) → g.Has (Assigns ctx t)

/-- Every assignment to a class variable in the node is in one of the given nodes as well. -/
def KeptAmong (f : Form) (forms : List Form) : Prop :=
  ∃ g ∈ forms, f.KeptIn g

variable {f g h : Form} {forms : List Form}

theorem KeptIn.refl (f : Form) : f.KeptIn f := by
  intro ctx t has
  exact has

theorem KeptIn.trans (first : f.KeptIn g) (second : g.KeptIn h) : f.KeptIn h := by
  intro ctx t has
  exact second ctx t (first ctx t has)

theorem KeptIn.of_mem (isItem : f.toItem ∈ g.items) : f.KeptIn g := by
  intro ctx t has
  exact has.of_mem isItem

theorem keptIn_withLine (f : Form) (line : Option Nat) : f.KeptIn (f.withLine line) := by
  intro ctx t has
  exact has.withLine (lineFree_assigns ctx t) line

theorem keptIn_raiseLines (f : Form) : f.KeptIn f.raiseLines := by
  intro ctx t has
  exact has.raiseLines (lineFree_assigns ctx t)

theorem keptIn_settleLines (f : Form) : f.KeptIn f.settleLines := by
  intro ctx t has
  exact has.settleLines (lineFree_assigns ctx t)

theorem keptIn_settle (ctx : Context) (n : Node) (f : Form) : f.KeptIn (settle ctx n f) := by
  intro ctx' t has
  exact has.settle (lineFree_assigns ctx' t) ctx n

theorem keptIn_withComments (f : Form) (comments : Option String) :
    f.KeptIn { f with comments } := by
  rintro ctx t ⟨g, member, assigns⟩
  obtain rfl | below := List.mem_cons.1 member
  · exact .root ⟨assigns.tag, assigns.name, assigns.line⟩
  · exact ⟨g, List.mem_cons_of_mem _ below, assigns⟩

theorem KeptAmong.of_mem (member : f ∈ forms) : f.KeptAmong forms :=
  ⟨f, member, .refl f⟩

theorem KeptAmong.group (kept : f.KeptAmong forms) (tag : String) :
    f.KeptIn (Form.group tag forms) := by
  obtain ⟨g, member, kept⟩ := kept
  exact kept.trans (.of_mem (List.mem_map_of_mem member))

theorem KeptAmong.mono {others : List Form} (kept : f.KeptAmong forms) (included : forms ⊆ others) :
    f.KeptAmong others := by
  obtain ⟨g, member, kept⟩ := kept
  exact ⟨g, included member, kept⟩

theorem KeptAmong.trans {others : List Form} (kept : f.KeptAmong forms)
    (among : ∀ g ∈ forms, g.KeptAmong others) : f.KeptAmong others := by
  obtain ⟨g, member, first⟩ := kept
  obtain ⟨h, isOther, second⟩ := among g member
  exact ⟨h, isOther, first.trans second⟩

theorem KeptAmong.of_keptIn (kept : g.KeptAmong forms) (inside : f.KeptIn g) :
    f.KeptAmong forms := by
  obtain ⟨h, member, second⟩ := kept
  exact ⟨h, member, inside.trans second⟩

theorem KeptAmong.wrap (kept : f.KeptAmong forms) : f.KeptAmong (wrap forms).toList := by
  match forms with
  | [] =>
    obtain ⟨g, member, kept⟩ := kept
    cases member
  | [only] => simpa [Rules.wrap] using kept
  | first :: second :: rest =>
    refine ⟨block (first :: second :: rest), by simp [Rules.wrap], ?_⟩
    exact (kept.group "block").trans (keptIn_withLine _ _)

theorem KeptAmong.wrapOrNil (kept : f.KeptAmong forms) : f.KeptIn (wrapOrNil forms) := by
  obtain ⟨g, member, kept⟩ := kept.wrap
  rw [Rules.wrapOrNil, Option.mem_toList.1 member]
  exact kept

end Form

/-- A computation that goes through a list gives each element its own result. -/
theorem exists_of_each {α β : Type} {one : α → Result β} {all : List α → Result (List β)}
    (step : ∀ a rest, all (a :: rest) = (do
      let b ← one a
      let bs ← all rest
      return b :: bs)) {as : List α} {bs : List β} (found : all as = .ok bs) {a : α}
    (member : a ∈ as) : ∃ b ∈ bs, one a = .ok b := by
  induction as generalizing bs with
  | nil => cases member
  | cons first rest ih =>
    rw [step] at found
    obtain ⟨b, isResult, found⟩ := bind_eq_ok.1 found
    obtain ⟨others, areOthers, made⟩ := bind_eq_ok.1 found
    cases made
    obtain rfl | member := List.mem_cons.1 member
    · exact ⟨b, List.mem_cons_self, isResult⟩
    · obtain ⟨b', inOthers, isResult⟩ := ih areOthers member
      exact ⟨b', List.mem_cons_of_mem _ inOthers, isResult⟩

section Bodies

variable {inner : Normalizer} {ctx : Context} {body : Node → Result (List Form)} {n : Node}
variable {forms : List Form}

/-- The parts of a body with clauses, each with its statements. -/
structure BodyParts (inner : Normalizer) (ctx : Context) (body : Node → Result (List Form))
    (n : Node) (forms : List Form) : Prop where
  main : ∃ main, statementsWith inner ctx body (n.slot 0) = .ok main ∧
    ∀ f ∈ main, f.KeptAmong forms
  otherwise : ∃ others, statementsWith inner ctx body (insideElse (n.slot 2)) = .ok others ∧
    ∀ f ∈ others, f.KeptAmong forms
  rescued : ∀ first, n.child? 1 = some first → ∃ clauses,
    rescueClauses inner ctx (statementsWith inner ctx body) (rescueChain first) = .ok clauses ∧
    ∀ f ∈ clauses, f.KeptAmong forms
  final : ∀ clause, n.child? 3 = some clause → ∃ final,
    statementsWith inner ctx body (insideEnsure clause) = .ok final ∧
    ∀ f ∈ final, f.KeptAmong forms

/-- The statements that an `ensure` clause guards are kept, and so are its own. -/
theorem kept_of_guarded {statements : Raw → Result (List Form)} {guarded : List Form}
    {ensure? : Option Node}
    (found : (match ensure? with
      | some clause => do
        let final ← statements (insideEnsure clause)
        pure [(Form.group "ensure" ((wrap guarded).toList ++ [wrapOrNil final])).raiseLines]
      | none => pure guarded) = .ok forms) :
    (∀ f : Form, f.KeptAmong guarded → f.KeptAmong forms) ∧
      ∀ clause, ensure? = some clause → ∃ final, statements (insideEnsure clause) = .ok final ∧
        ∀ f ∈ final, f.KeptAmong forms := by
  cases ensure? with
  | none =>
    cases found
    exact ⟨fun f kept => kept, by simp⟩
  | some clause =>
    obtain ⟨final, isFinal, made⟩ := bind_eq_ok.1 found
    cases made
    have outer (f : Form) (kept : f.KeptAmong ((wrap guarded).toList ++ [wrapOrNil final])) :
        f.KeptAmong
          [(Form.group "ensure" ((wrap guarded).toList ++ [wrapOrNil final])).raiseLines] :=
      ⟨_, List.mem_singleton_self _, (kept.group "ensure").trans (Form.keptIn_raiseLines _)⟩
    constructor
    · intro f kept
      exact outer f (kept.wrap.mono (List.subset_append_left _ _))
    · rintro clause ⟨⟩
      refine ⟨final, isFinal, fun f member => outer f ?_⟩
      exact ⟨wrapOrNil final, by simp, (Form.KeptAmong.of_mem member).wrapOrNil⟩

/-- All parts of a body with clauses are kept in it. -/
theorem bodyParts_of_bodyStep (found : bodyStep inner ctx body n = .ok forms) :
    BodyParts inner ctx body n forms := by
  rw [bodyStep] at found
  obtain ⟨main, isMain, found⟩ := bind_eq_ok.1 found
  obtain ⟨rescue?, isRescue, found⟩ := bind_eq_ok.1 found
  obtain ⟨ensure?, isEnsure, found⟩ := bind_eq_ok.1 found
  obtain ⟨others, isOther, found⟩ := bind_eq_ok.1 found
  have rescue_eq (first : Node) (isChild : n.child? 1 = some first) : rescue? = some first := by
    rw [Node.nodeAt?_of_child? isChild] at isRescue
    exact (Except.ok.inj isRescue).symm
  have ensure_eq (clause : Node) (isChild : n.child? 3 = some clause) : ensure? = some clause := by
    rw [Node.nodeAt?_of_child? isChild] at isEnsure
    exact (Except.ok.inj isEnsure).symm
  cases rescue? with
  | none =>
    obtain ⟨kept, final⟩ := kept_of_guarded found
    have here (f : Form) (member : f ∈ main ++ others) := kept f (.of_mem member)
    refine ⟨⟨main, isMain, fun f member => here f (List.mem_append_left _ member)⟩,
      ⟨others, isOther, fun f member => here f (List.mem_append_right _ member)⟩, ?_, ?_⟩
    · intro first isChild
      cases rescue_eq first isChild
    · intro clause isChild
      exact final clause (ensure_eq clause isChild)
  | some first =>
    obtain ⟨clauses, areClauses, found⟩ := bind_eq_ok.1 found
    obtain ⟨kept, final⟩ := kept_of_guarded found
    have here (f : Form)
        (among : f.KeptAmong ((wrap main).toList ++ clauses ++ (wrap others).toList)) :
        f.KeptAmong forms :=
      kept f ⟨_, List.mem_singleton_self _, (among.group "rescue").trans (Form.keptIn_raiseLines _)⟩
    refine ⟨⟨main, isMain, fun f member => here f ?_⟩, ⟨others, isOther, fun f member => here f ?_⟩,
      ?_, ?_⟩
    · exact (Form.KeptAmong.of_mem member).wrap.mono fun g inMain => by simp [inMain]
    · exact (Form.KeptAmong.of_mem member).wrap.mono fun g inOther => by simp [inOther]
    · intro clause isChild
      cases rescue_eq clause isChild
      exact ⟨clauses, areClauses, fun f member => here f (.of_mem (by simp [member]))⟩
    · intro clause isChild
      exact final clause (ensure_eq clause isChild)

/-- Smaller bodies are read in turn. -/
theorem bodyParts_of_statements (isBody : n.tag = "bodystmt")
    (found : statements inner ctx n.toRaw = .ok forms) :
    BodyParts inner ctx (fun m => if m.size < n.size then bodyStatements inner ctx m
      else .error (.unsupported m.tag none)) n forms := by
  have isBody : n.is "bodystmt" = true := beq_iff_eq.2 isBody
  rw [statements, Node.toRaw, statementsWith, if_pos isBody, bodyStatements, Node.bySize_eq]
    at found
  exact bodyParts_of_bodyStep found

end Bodies

/-! ### Rescue variables -/

section RescueVariables

variable {inner : Normalizer} {ctx : Context} {t : Token}

theorem has_rescueClause {n v : Node} (isVariable : n.child? 1 = some v)
    (member : t ∈ v.leftVariables) (statements : Raw → Result (List Form)) :
    Ensures (rescueClause inner ctx statements n) (Form.Has (Form.Assigns ctx t)) := by
  simp only [rescueClause, Node.nodeAt?_of_child? isVariable, ok_bind, ensures_bind, ensures_map,
    ensures_pure]
  refine .of_forall fun _ => .of_forall fun classes => ?_
  refine (has_assign member _).mono fun f has => .of_forall fun body => ?_
  refine Form.Has.withLine (lineFree_assigns ctx t) ?_ _
  have inArray : (array (classes ++ [f])).Has (Form.Assigns ctx t) :=
    has_array ⟨f, by simp, has⟩
  exact inArray.of_mem List.mem_cons_self

theorem exists_of_rescueClauses {statements : Raw → Result (List Form)} {clauses : List Node}
    {forms : List Form} (found : rescueClauses inner ctx statements clauses = .ok forms) {n : Node}
    (isClause : n ∈ clauses) : ∃ f ∈ forms, rescueClause inner ctx statements n = .ok f :=
  exists_of_each (fun _ _ => rfl) found isClause

/-- The class variables that the rescue clauses of a body bind. -/
def Raw.Node.rescueVariables (n : Node) : List Token :=
  (n.child? 1).toList.flatMap rescueChain |>.flatMap fun clause =>
    (clause.child? 1).toList.flatMap Node.leftVariables

theorem has_statements {n : Node} (isBody : n.tag = "bodystmt") (member : t ∈ n.rescueVariables)
    {forms : List Form} (found : statements inner ctx n.toRaw = .ok forms) :
    ∃ f ∈ forms, f.Has (Form.Assigns ctx t) := by
  simp only [Node.rescueVariables, List.mem_flatMap, Option.mem_toList] at member
  obtain ⟨clause, ⟨first, isFirst, isClause⟩, v, isVariable, member⟩ := member
  obtain ⟨clauses, areClauses, kept⟩ := (bodyParts_of_statements isBody found).rescued first isFirst
  obtain ⟨f, inClauses, isResult⟩ := exists_of_rescueClauses areClauses isClause
  obtain ⟨g, inForms, keptIn⟩ := kept f inClauses
  exact ⟨g, inForms, keptIn ctx t (has_rescueClause isVariable member _ f isResult)⟩

end RescueVariables

end RubyNormalForm
