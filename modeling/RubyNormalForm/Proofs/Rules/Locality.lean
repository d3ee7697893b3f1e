import RubyNormalForm.Normalize

/-!
# Rules look at smaller nodes only

A rule is handed a normaliser and uses it for the nodes under its own node. Two normalisers
that agree on smaller nodes therefore give a rule the same result. With this, the guard by
which normalisation is known to end can be dropped: for the rules treated here, the normal
form of a node is that of its rule with the normaliser itself.
-/

namespace RubyNormalForm

@[simp]
theorem ok_bind {α β : Type} (a : α) (f : α → Result β) : ((.ok a : Result α) >>= f) = f a := rfl

/-- Congruence of sequencing: the continuations need to agree on the first result only. -/
theorem bind_congr_ok {α β : Type} {x y : Result α} {f g : α → Result β} (first : x = y)
    (next : ∀ a, y = .ok a → f a = g a) : (x >>= f) = (y >>= g) := by
  subst first
  cases x with
  | error e => rfl
  | ok a => exact next a rfl

/-- Two normalisers agree on the nodes below a size. -/
def AgreeBelow (k : Nat) (inner inner' : Normalizer) : Prop :=
  ∀ ctx m, m.size < k → inner ctx m = inner' ctx m

namespace Raw

theorem size_lt_of_mem (tag : String) {children : List Raw} {child : Raw}
    (member : child ∈ children) : child.size < (Raw.node tag children).size := by
  have := size_le_sizeAll_of_mem member
  simp only [size]
  omega

theorem Node.size_toRaw (n : Node) : n.toRaw.size = n.size := by
  simp only [Node.toRaw, Raw.size, Node.size]

theorem Node.size_of_nodeAt {n m : Node} {i : Nat} (found : n.nodeAt i = .ok m) :
    m.size < n.size := by
  have smaller := Node.size_slot_lt n i
  rw [Node.nodeAt] at found
  split at found
  · rename_i tag children slot
    cases found
    simpa only [slot, Raw.size, Node.size] using smaller
  · cases found

theorem Node.size_of_nodeAt? {n m : Node} {i : Nat} (found : n.nodeAt? i = .ok (some m)) :
    m.size < n.size := by
  have smaller := Node.size_slot_lt n i
  rw [Node.nodeAt?] at found
  split at found
  · rename_i tag children slot
    cases found
    simpa only [slot, Raw.size, Node.size] using smaller
  · split at found <;> cases found

end Raw

/-- What is inside wrappings is smaller than the wrappings. -/
theorem Raw.Node.size_lt_of_unwrap? {n m : Raw.Node} (inside : n.unwrap? = some m) :
    m.size < n.size := by
  fun_induction Raw.Node.unwrap? n generalizing m with
  | case1 n none => cases inside
  | case2 n next wrapped ih =>
    have smaller := Raw.Node.size_lt_of_wrapped? wrapped
    obtain rfl := Option.some.inj inside
    cases further : next.unwrap? with
    | none => exact smaller
    | some last => exact Nat.lt_trans (ih further) smaller

namespace Rules

open Raw

/-! ### Values and arguments -/

section Values

variable {k : Nat} {inner inner' : Normalizer} (agree : AgreeBelow k inner inner') (ctx : Context)
include agree

theorem value?_congr {child : Raw} (small : child.size < k) :
    value? inner ctx child = value? inner' ctx child := by
  cases child with
  | node tag children => simp only [value?, agree ctx ⟨tag, children⟩ small]
  | _ => rfl

theorem values_congr {children : List Raw} (small : ∀ child ∈ children, child.size < k) :
    values inner ctx children = values inner' ctx children := by
  induction children with
  | nil => rfl
  | cons child rest ih =>
    have first := value?_congr agree ctx (small child (by simp))
    have others := ih (fun c member => small c (by simp [member]))
    simp only [values, first, others]

theorem entries_congr {child : Raw} (small : child.size < k) :
    entries inner ctx child = entries inner' ctx child := by
  cases child with
  | node tag children =>
    have all : values inner ctx children = values inner' ctx children :=
      values_congr agree ctx (fun c member => Nat.lt_trans (size_lt_of_mem tag member) small)
    simp only [entries, agree ctx ⟨tag, children⟩ small, all]
  | _ => rfl

end Values

theorem size_insideParens_le (child : Raw) : (insideParens child).size ≤ child.size := by
  fun_induction insideParens child with
  | case1 tag children isParen ih =>
    have smaller := Node.size_slot_lt ⟨tag, children⟩ 0
    simp only [Raw.size, Node.size] at smaller ⊢
    omega
  | case2 tag children notParen => exact Nat.le_refl _
  | case3 other notNode => exact Nat.le_refl _

section Targets

variable {k : Nat} {inner inner' : Normalizer} (agree : AgreeBelow k inner inner') (ctx : Context)
include agree

theorem arguments_congr {child : Raw} (small : child.size < k) :
    arguments inner ctx child = arguments inner' ctx child :=
  entries_congr agree ctx (Nat.lt_of_le_of_lt (size_insideParens_le child) small)

theorem constantPath_congr (top : Bool) {n : Node} (le : n.size ≤ k) :
    constantPath top inner ctx n = constantPath top inner' ctx n := by
  cases top with
  | true => rfl
  | false =>
    simp only [constantPath, Bool.false_eq_true, if_false]
    refine bind_congr_ok rfl ?_
    intro m found
    rw [agree ctx m (Nat.lt_of_lt_of_le (Node.size_of_nodeAt found) le)]

theorem attributeTarget_congr {n : Node} (le : n.size ≤ k) :
    attributeTarget inner ctx n = attributeTarget inner' ctx n := by
  refine bind_congr_ok rfl ?_
  intro m found
  rw [agree ctx m (Nat.lt_of_lt_of_le (Node.size_of_nodeAt found) le)]

theorem elementTarget_congr {n : Node} (le : n.size ≤ k) :
    elementTarget inner ctx n = elementTarget inner' ctx n := by
  have args := arguments_congr agree ctx (Nat.lt_of_lt_of_le (Node.size_slot_lt n 1) le)
  refine bind_congr_ok rfl ?_
  intro m found
  rw [agree ctx m (Nat.lt_of_lt_of_le (Node.size_of_nodeAt found) le), args]

theorem leafTarget_congr {n : Node} (le : n.size ≤ k) :
    leafTarget inner ctx n = leafTarget inner' ctx n := by
  simp only [leafTarget, attributeTarget_congr agree ctx le, elementTarget_congr agree ctx le,
    constantPath_congr agree ctx _ le]

end Targets

mutual

theorem target_congr {k : Nat} {inner inner' : Normalizer} (agree : AgreeBelow k inner inner')
    (ctx : Context) (value : Option Form) (child : Raw) (le : child.size ≤ k) :
    target inner ctx value child = target inner' ctx value child := by
  cases child with
  | node tag children =>
    have leaf := leafTarget_congr agree ctx (n := ⟨tag, children⟩) le
    have inside : targets inner ctx children = targets inner' ctx children := by
      refine targets_congr agree ctx children ?_
      intro c member
      exact Nat.le_of_lt (Nat.lt_of_lt_of_le (size_lt_of_mem tag member) le)
    cases children with
    | nil => simp only [target, leaf, inside]
    | cons first rest =>
      have smaller : first.size ≤ k :=
        Nat.le_of_lt (Nat.lt_of_lt_of_le (size_lt_of_mem tag (by simp)) le)
      have single := fun value => target_congr agree ctx value first smaller
      simp only [target, leaf, inside, single]
  | _ => simp only [target]

theorem targets_congr {k : Nat} {inner inner' : Normalizer} (agree : AgreeBelow k inner inner')
    (ctx : Context) (children : List Raw) (le : ∀ child ∈ children, child.size ≤ k) :
    targets inner ctx children = targets inner' ctx children := by
  cases children with
  | nil => simp only [targets]
  | cons first rest =>
    have head := target_congr agree ctx none first (le first (by simp))
    have tail := targets_congr agree ctx rest (fun c member => le c (by simp [member]))
    simp only [targets, head, tail]

end

/-! ### Statements and bodies -/

theorem size_insideElse_le (child : Raw) : (insideElse child).size ≤ child.size := by
  cases child with
  | node tag children =>
    have smaller := Node.size_slot_lt ⟨tag, children⟩ 0
    simp only [insideElse]
    split
    · simp only [Raw.size, Node.size] at smaller ⊢
      omega
    · exact Nat.le_refl _
  | _ => exact Nat.le_refl _

theorem size_insideEnsure_le (n : Node) : (insideEnsure n).size ≤ n.size := by
  rw [insideEnsure]
  split
  · exact Nat.le_of_lt (Node.size_slot_lt n 0)
  · exact Nat.le_of_eq n.size_toRaw

theorem size_le_of_mem_rescueChain {n m : Node} (member : m ∈ rescueChain n) :
    m.size ≤ n.size := by
  fun_induction rescueChain n with
  | case1 n ih =>
    obtain rfl | member := List.mem_cons.1 member
    · exact Nat.le_refl _
    · split at member
      · rename_i next found
        have smaller := Node.size_slot_lt n 3
        rw [← Node.size_of_node? found] at smaller
        exact Nat.le_trans (ih next found member) (Nat.le_of_lt smaller)
      · cases member

section Statements

variable {k : Nat} {inner inner' : Normalizer} (agree : AgreeBelow k inner inner') (ctx : Context)
include agree

theorem assign_congr (value : Option Form) {n : Node} (le : n.size ≤ k) :
    assign inner ctx value n = assign inner' ctx value n := by
  refine target_congr agree ctx value n.toRaw ?_
  rw [Node.size_toRaw]
  exact le

theorem listed_congr {children : List Raw} (small : ∀ child ∈ children, child.size < k) :
    listed inner ctx children = listed inner' ctx children := by
  induction children with
  | nil => rfl
  | cons child rest ih =>
    have others := ih (fun c member => small c (by simp [member]))
    cases child with
    | node tag inside =>
      have first : inner ctx ⟨tag, inside⟩ = inner' ctx ⟨tag, inside⟩ :=
        agree ctx _ (small (.node tag inside) (by simp))
      simp only [listed, first, others]
    | _ => simp only [listed, others]

theorem statementsWith_congr {body body' : Node → Result (List Form)} {child : Raw}
    (bodies : ∀ m : Node, m.size < k → body m = body' m) (small : child.size < k) :
    statementsWith inner ctx body child = statementsWith inner' ctx body' child := by
  cases child with
  | node tag children =>
    have list : listed inner ctx children = listed inner' ctx children :=
      listed_congr agree ctx (fun c member => Nat.lt_trans (size_lt_of_mem tag member) small)
    simp only [statementsWith, agree ctx ⟨tag, children⟩ small, bodies ⟨tag, children⟩ small, list]
  | _ => rfl

theorem rescueClause_congr {statements statements' : Raw → Result (List Form)}
    (same : ∀ child : Raw, child.size < k → statements child = statements' child) {n : Node}
    (le : n.size ≤ k) :
    rescueClause inner ctx statements n = rescueClause inner' ctx statements' n := by
  have classes := arguments_congr agree ctx (Nat.lt_of_lt_of_le (Node.size_slot_lt n 0) le)
  have inside := same (n.slot 2) (Nat.lt_of_lt_of_le (Node.size_slot_lt n 2) le)
  refine bind_congr_ok rfl ?_
  intro bound found
  cases bound with
  | none => simp only [classes, inside]
  | some v =>
    have small : v.size < k := Nat.lt_of_lt_of_le (Node.size_of_nodeAt? found) le
    simp only [classes, inside, assign_congr agree ctx _ (Nat.le_of_lt small)]

theorem rescueClauses_congr {statements statements' : Raw → Result (List Form)}
    (same : ∀ child : Raw, child.size < k → statements child = statements' child)
    {clauses : List Node} (le : ∀ n ∈ clauses, n.size ≤ k) :
    rescueClauses inner ctx statements clauses = rescueClauses inner' ctx statements' clauses := by
  induction clauses with
  | nil => rfl
  | cons n rest ih =>
    have first := rescueClause_congr agree ctx same (le n (by simp))
    have others := ih (fun m member => le m (by simp [member]))
    simp only [rescueClauses, first, others]

theorem bodyStep_congr {body body' : Node → Result (List Form)} {n : Node} (le : n.size ≤ k)
    (bodies : ∀ m : Node, m.size < k → body m = body' m) :
    bodyStep inner ctx body n = bodyStep inner' ctx body' n := by
  have same : ∀ child : Raw, child.size < k →
      statementsWith inner ctx body child = statementsWith inner' ctx body' child :=
    fun child small => statementsWith_congr agree ctx bodies small
  have main := same (n.slot 0) (Nat.lt_of_lt_of_le (Node.size_slot_lt n 0) le)
  have otherwise := same (insideElse (n.slot 2))
    (Nat.lt_of_le_of_lt (size_insideElse_le _) (Nat.lt_of_lt_of_le (Node.size_slot_lt n 2) le))
  simp only [bodyStep, main, otherwise]
  refine bind_congr_ok rfl fun main _ => bind_congr_ok rfl fun rescue? rescued =>
    bind_congr_ok rfl fun ensure? ensured => bind_congr_ok rfl fun others _ => ?_
  have guarded : ∀ first, rescue? = some first →
      rescueClauses inner ctx (statementsWith inner ctx body) (rescueChain first) =
        rescueClauses inner' ctx (statementsWith inner' ctx body') (rescueChain first) := by
    intro first isFirst
    subst isFirst
    refine rescueClauses_congr agree ctx same ?_
    intro m member
    exact Nat.le_trans (size_le_of_mem_rescueChain member)
      (Nat.le_trans (Nat.le_of_lt (Node.size_of_nodeAt? rescued)) le)
  have final : ∀ clause, ensure? = some clause →
      statementsWith inner ctx body (insideEnsure clause) =
        statementsWith inner' ctx body' (insideEnsure clause) := by
    intro clause isClause
    subst isClause
    exact same _ (Nat.lt_of_le_of_lt (size_insideEnsure_le clause)
      (Nat.lt_of_lt_of_le (Node.size_of_nodeAt? ensured) le))
  cases rescue? with
  | none =>
    cases ensure? with
    | none => rfl
    | some clause => simp only [final clause rfl]
  | some first =>
    cases ensure? with
    | none => simp only [guarded first rfl]
    | some clause => simp only [guarded first rfl, final clause rfl]

/-- The statements of a body with clauses, by induction on its size: the guard on smaller
bodies is the same on both sides. -/
theorem bodyStatements_congr {n : Node} (le : n.size ≤ k) :
    bodyStatements inner ctx n = bodyStatements inner' ctx n := by
  induction size : n.size using Nat.strongRecOn generalizing n with
  | ind s ih =>
    subst size
    unfold bodyStatements
    rw [Node.bySize_eq, Node.bySize_eq]
    refine bodyStep_congr agree ctx le ?_
    intro m _
    by_cases smaller : m.size < n.size
    · simp only [smaller, if_true]
      exact ih m.size smaller (Nat.le_trans (Nat.le_of_lt smaller) le) rfl
    · simp only [smaller, if_false]

theorem statements_congr {child : Raw} (small : child.size < k) :
    statements inner ctx child = statements inner' ctx child :=
  statementsWith_congr agree ctx
    (fun _ smaller => bodyStatements_congr agree ctx (Nat.le_of_lt smaller)) small

theorem body_congr {child : Raw} (small : child.size < k) :
    body inner ctx child = body inner' ctx child := by
  simp only [body, statements_congr agree ctx small]

theorem elseBody_congr {child : Raw} (small : child.size < k) :
    elseBody inner ctx child = elseBody inner' ctx child :=
  body_congr agree ctx (Nat.lt_of_le_of_lt (size_insideElse_le child) small)

end Statements

/-! ### Literals -/

theorem size_le_of_mem_contentParts {child part : Raw} {parts : List Raw}
    (found : contentParts child = .ok parts) (member : part ∈ parts) :
    part.size ≤ child.size := by
  cases child with
  | node tag children =>
    simp only [contentParts] at found
    split at found
    · cases found
      exact Nat.le_of_lt (size_lt_of_mem tag member)
    · cases found
      exact Nat.le_of_eq (congrArg Raw.size (List.mem_singleton.1 member))
  | nil =>
    cases found
    cases member
  | bool b =>
    cases b with
    | false =>
      cases found
      cases member
    | true => cases found
  | _ => cases found

theorem size_le_of_mem_wordParts {child part : Raw} (member : part ∈ wordParts child) :
    part.size ≤ child.size := by
  cases child with
  | node tag children =>
    simp only [wordParts] at member
    split at member
    · exact Nat.le_of_lt (size_lt_of_mem tag member)
    · exact Nat.le_of_eq (congrArg Raw.size (List.mem_singleton.1 member))
  | _ => exact Nat.le_of_eq (congrArg Raw.size (List.mem_singleton.1 member))

section Literals

variable {k : Nat} {inner inner' : Normalizer} (agree : AgreeBelow k inner inner') (ctx : Context)
include agree

theorem fragmentsOf_congr {n : Node} (small : n.size < k) :
    fragmentsOf inner ctx n = fragmentsOf inner' ctx n := by
  have inside := body_congr agree ctx (Nat.lt_trans (Node.size_slot_lt n 0) small)
  have variable' : (n.nodeAt 0 >>= fun m => inner ctx m >>= fun f =>
        pure [Fragment.piece (.form (interpolation f))]) =
      (n.nodeAt 0 >>= fun m => inner' ctx m >>= fun f =>
        pure [Fragment.piece (.form (interpolation f))]) := by
    refine bind_congr_ok rfl ?_
    intro m found
    rw [agree ctx m (Nat.lt_trans (Node.size_of_nodeAt found) small)]
  simp only [fragmentsOf, inside, agree ctx n small, variable']

theorem fragments_congr {parts : List Raw} (small : ∀ part ∈ parts, part.size < k) :
    fragments inner ctx parts = fragments inner' ctx parts := by
  induction parts with
  | nil => rfl
  | cons part rest ih =>
    have others := ih (fun c member => small c (by simp [member]))
    cases part with
    | node tag children =>
      have first : fragmentsOf inner ctx ⟨tag, children⟩ = fragmentsOf inner' ctx ⟨tag, children⟩ :=
        fragmentsOf_congr agree ctx (small (.node tag children) (by simp))
      simp only [fragments, first, others]
    | _ => simp only [fragments, others]

theorem fragments_contentParts_congr {n : Node} (le : n.size ≤ k) {parts : List Raw}
    (found : contentParts (n.slot 0) = .ok parts) :
    fragments inner ctx parts = fragments inner' ctx parts := by
  refine fragments_congr agree ctx fun part member => ?_
  exact Nat.lt_of_le_of_lt (size_le_of_mem_contentParts found member)
    (Nat.lt_of_lt_of_le (Node.size_slot_lt n 0) le)

theorem quotedRule_congr (form : Encoding → List Piece → Form) {n : Node} (le : n.size ≤ k) :
    quotedRule form inner ctx n = quotedRule form inner' ctx n := by
  refine bind_congr_ok rfl ?_
  intro parts found
  simp only [pieces, fragments_contentParts_congr agree ctx le found]

theorem regexpRule_congr {n : Node} (le : n.size ≤ k) :
    regexpRule inner ctx n = regexpRule inner' ctx n := by
  refine bind_congr_ok rfl ?_
  intro parts found
  simp only [fragments_contentParts_congr agree ctx le found]

theorem wordsRule_congr (form : Encoding → List Piece → Form) {n : Node} (le : n.size ≤ k) :
    wordsRule form inner ctx n = wordsRule form inner' ctx n := by
  have each {children : List Raw} (small : ∀ child ∈ children, child.size < k) :
      wordForms form inner ctx children = wordForms form inner' ctx children := by
    induction children with
    | nil => rfl
    | cons child rest ih =>
      rw [List.forall_mem_cons] at small
      have smaller : ∀ part ∈ wordParts child, part.size < k := fun part member =>
        Nat.lt_of_le_of_lt (size_le_of_mem_wordParts member) small.1
      have parts := fragments_congr agree ctx smaller
      simp only [wordForms, pieces, parts, ih small.2]
  have small : ∀ child ∈ n.children, child.size < k := fun child member =>
    Nat.lt_of_lt_of_le (size_lt_of_mem n.tag member) (by simpa [Node.size, Raw.size] using le)
  rw [wordsRule, wordsRule, each small]

theorem concatenationRule_congr {n : Node} (le : n.size ≤ k) :
    concatenationRule inner ctx n = concatenationRule inner' ctx n := by
  refine bind_congr_ok rfl fun left found => ?_
  refine bind_congr_ok (agree ctx left (Nat.lt_of_lt_of_le (Node.size_of_nodeAt found) le)) ?_
  intro f _
  refine bind_congr_ok rfl fun right found' => ?_
  rw [agree ctx right (Nat.lt_of_lt_of_le (Node.size_of_nodeAt found') le)]

end Literals

/-! ### Conditions and loops -/

theorem size_conditionNode_le (n : Node) : (conditionNode n).size ≤ n.size := by
  rw [conditionNode]
  split
  · rename_i m inside
    split
    · exact Nat.le_of_lt (Node.size_lt_of_unwrap? inside)
    · exact Nat.le_refl _
  · exact Nat.le_refl _

section Conditions

variable {k : Nat} {inner inner' : Normalizer} (agree : AgreeBelow k inner inner') (ctx : Context)
include agree

theorem conditionForm_congr (flipFlop : Bool) {n : Node} (small : n.size < k) :
    conditionForm inner ctx flipFlop n = conditionForm inner' ctx flipFlop n := by
  have first := value?_congr agree ctx (Nat.lt_trans (Node.size_slot_lt n 0) small)
  have last := value?_congr agree ctx (Nat.lt_trans (Node.size_slot_lt n 1) small)
  simp only [conditionForm, first, last, agree ctx n small]

theorem condition_congr (flipFlop : Bool) {n : Node} (small : n.size < k) :
    condition inner ctx flipFlop n = condition inner' ctx flipFlop n := by
  have smaller := Nat.lt_of_le_of_lt (size_conditionNode_le n) small
  simp only [condition, conditionForm_congr agree ctx flipFlop smaller]

theorem otherwise_congr {child : Raw} (small : child.size < k) :
    otherwise inner ctx child = otherwise inner' ctx child := by
  have ends := elseBody_congr agree ctx small
  cases child with
  | node tag children => simp only [otherwise, agree ctx ⟨tag, children⟩ small, ends]
  | _ => simp only [otherwise, ends]

theorem conditional_congr (flipFlop swap : Bool) {n : Node} (le : n.size ≤ k) :
    conditional flipFlop swap inner ctx n = conditional flipFlop swap inner' ctx n := by
  have yes := body_congr agree ctx (Nat.lt_of_lt_of_le (Node.size_slot_lt n 1) le)
  have no := otherwise_congr agree ctx (Nat.lt_of_lt_of_le (Node.size_slot_lt n 2) le)
  refine bind_congr_ok rfl fun m found => ?_
  have small := Nat.lt_of_lt_of_le (Node.size_of_nodeAt found) le
  simp only [condition_congr agree ctx flipFlop small, yes, no]

theorem modifier_congr (swap : Bool) {n : Node} (le : n.size ≤ k) :
    modifier swap inner ctx n = modifier swap inner' ctx n := by
  have statement := value?_congr agree ctx (Nat.lt_of_lt_of_le (Node.size_slot_lt n 1) le)
  refine bind_congr_ok rfl fun m found => ?_
  have small := Nat.lt_of_lt_of_le (Node.size_of_nodeAt found) le
  simp only [condition_congr agree ctx true small, statement]

theorem ternary_congr {n : Node} (le : n.size ≤ k) :
    ternary inner ctx n = ternary inner' ctx n := by
  have yes := value?_congr agree ctx (Nat.lt_of_lt_of_le (Node.size_slot_lt n 1) le)
  have no := value?_congr agree ctx (Nat.lt_of_lt_of_le (Node.size_slot_lt n 2) le)
  refine bind_congr_ok rfl fun m found => ?_
  have small := Nat.lt_of_lt_of_le (Node.size_of_nodeAt found) le
  simp only [condition_congr agree ctx false small, yes, no]

theorem loop_congr (isUntil : Bool) {n : Node} (le : n.size ≤ k) :
    loop isUntil inner ctx n = loop isUntil inner' ctx n := by
  have inside := body_congr agree ctx (Nat.lt_of_lt_of_le (Node.size_slot_lt n 1) le)
  refine bind_congr_ok rfl fun m found => ?_
  have small := Nat.lt_of_lt_of_le (Node.size_of_nodeAt found) le
  simp only [condition_congr agree ctx true small, inside]

theorem postfixLoop_congr (isUntil : Bool) {n : Node} (le : n.size ≤ k) :
    postfixLoop isUntil inner ctx n = postfixLoop isUntil inner' ctx n := by
  refine bind_congr_ok rfl fun m found => ?_
  have small := Nat.lt_of_lt_of_le (Node.size_of_nodeAt found) le
  refine bind_congr_ok (condition_congr agree ctx true small) fun c _ => ?_
  refine bind_congr_ok rfl fun statement found' => ?_
  rw [agree ctx statement (Nat.lt_of_lt_of_le (Node.size_of_nodeAt found') le)]

end Conditions

end Rules

/-! ### Normal forms without the guard -/

/-- A rule that looks at smaller nodes only when it is given a node. -/
def Rule.LocalAt (rule : Rule) (ctx : Context) (n : Raw.Node) : Prop :=
  ∀ inner inner', AgreeBelow n.size inner inner' → rule inner ctx n = rule inner' ctx n

/-- The normal form of a node by a rule that looks at smaller nodes only. -/
theorem normalizeNode_of_localAt {rule : Rule} {ctx : Context} {n : Raw.Node}
    (found : rule? n.tag = some rule) (isLocal : rule.LocalAt ctx n) :
    normalizeNode ctx n = (rule normalizeNode ctx n).map (settle ctx n) := by
  rw [normalizeNode_eq]
  simp only [normalizeStep, found]
  refine congrArg _ (isLocal _ _ ?_)
  intro ctx m small
  simp only [small, if_true]

end RubyNormalForm
