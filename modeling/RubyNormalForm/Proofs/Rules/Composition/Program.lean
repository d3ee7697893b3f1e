import RubyNormalForm.Proofs.Rules.Composition.Definition
import RubyNormalForm.Proofs.Rules.Composition.Text

/-!
# What whole programs are composed of

Every rule of the table upholds every law. The induction over the normaliser then gives the
property at every node of every normal form. It runs over nodes at their sites, since what a
comment wraps has the property only once the comment is on it.
-/

namespace RubyNormalForm

open Raw Rules

variable {known : Site → Node → Prop} {ctx : Context} {P : Form → Prop}

/-! ### Settled lines -/

theorem Item.kind_unlined (x : Item) : x.unlined.kind = x.kind := by
  cases x <;> rfl

/-- The schema does not ask for lines. -/
theorem lineFree_conforms : LineFree Form.Conforms := by
  intro f g filled h
  have kinds (f : Form) : f.kinds = (Item.unlinedAll f.items).map Item.kind := by
    rw [Item.unlinedAll_eq_map, List.map_map, Form.kinds]
    exact List.map_congr_left fun x _ => (Item.kind_unlined x).symm
  rw [Form.Conforms, filled.tag, kinds, filled.items, ← kinds]
  exact h

theorem settle_commented (ctx : Context) (n : Node) (f : Form) (comment : Option String) :
    (settle ctx n f).commented comment = settle ctx n (f.commented comment) := by
  simp only [settle, apply_ite (Form.commented · comment)]
  rfl

/-! ### The table -/

/-- The tags of nodes that are more to their rules than the expressions below them. -/
def exceptionalTags : List String :=
  "method_add_arg" :: "@tstring_content" :: listTag :: "stmts" :: shiftingTags

section Table

variable (law : Law known ctx P)
include law

theorem rules_compose :
    ∀ entry ∈ rules, entry.1 ∉ exceptionalTags → Composes known ctx P entry.2 := by
  have exceptional {tag : String} {rule : Rule} (member : tag ∈ exceptionalTags)
      (ordinary : tag ∉ exceptionalTags) : Composes known ctx P rule := absurd member ordinary
  simp only [rules, List.forall_mem_cons, List.not_mem_nil, false_implies, implies_true, and_true]
  -- in the order of the table
  exact ⟨exceptional (by decide),
    exceptional (by decide),
    exceptional (by decide),
    exceptional (by decide),
    exceptional (by decide),
    fun _ => constant_composes law (by decide),
    fun _ => parenthesesRule_composes law,
    exceptional (by decide),
    fun _ => lambdaRule_composes law,
    fun _ => hookRule_composes law (by decide),
    fun _ => hookRule_composes law (by decide),
    fun _ => conditional_composes law _ _,
    fun _ => conditional_composes law _ _,
    fun _ => conditional_composes law _ _,
    fun _ => modifier_composes law _,
    fun _ => modifier_composes law _,
    fun _ => ternary_composes law,
    fun _ => caseRule_composes law,
    fun _ => bodyRule_composes law,
    exceptional (by decide),
    fun _ => fallbackRule_composes law,
    fun _ => integerRule_composes law,
    fun _ => floatRule_composes law,
    fun _ => rationalRule_composes law,
    fun _ => imaginaryRule_composes law,
    fun _ => characterRule_composes law,
    fun _ => labelRule_composes law,
    fun _ => tokenRule_composes law,
    fun _ => tokenRule_composes law,
    fun _ => tokenRule_composes law,
    fun _ => tokenRule_composes law,
    fun _ => tokenRule_composes law,
    exceptional (by decide),
    fun _ => referenceRule_composes law,
    fun _ => referenceRule_composes law,
    fun _ => constantPath_composes law _,
    fun _ => constantPath_composes law _,
    fun _ => quotedRule_composes law (all_stringForm law),
    fun _ => contentRule_composes law,
    fun _ => concatenationRule_composes law,
    fun _ => quotedRule_composes law (all_commandForm law),
    fun _ => quotedRule_composes law (all_symbolForm law),
    fun _ => symbolRule_composes law,
    fun _ => symbolRule_composes law,
    fun _ => regexpRule_composes law,
    fun _ => wordsRule_composes law (all_stringForm law),
    fun _ => wordsRule_composes law (all_stringForm law),
    fun _ => wordsRule_composes law (all_symbolForm law),
    fun _ => wordsRule_composes law (all_symbolForm law),
    fun _ => arrayRule_composes law,
    fun _ => hashRule_composes law,
    fun _ => hashRule_composes law,
    fun _ => rangeRule_composes law _,
    fun _ => rangeRule_composes law _,
    fun _ => loop_composes law _,
    fun _ => loop_composes law _,
    fun _ => postfixLoop_composes law _,
    fun _ => postfixLoop_composes law _,
    exceptional (by decide),
    fun _ => callRule_composes law,
    fun _ => bareCallRule_composes law,
    fun _ => bareCallRule_composes law,
    fun _ => commandRule_composes law,
    fun _ => commandCallRule_composes law,
    exceptional (by decide),
    fun _ => elementRule_composes law,
    fun _ => superRule_composes law,
    fun _ => constant_composes law (by decide),
    fun _ => yieldRule_composes law,
    fun _ => constant_composes law (by decide),
    fun _ => jump_composes law (by decide),
    fun _ => constant_composes law (by decide),
    fun _ => jump_composes law (by decide),
    fun _ => jump_composes law (by decide),
    fun _ => constant_composes law (by decide),
    fun _ => constant_composes law (by decide),
    fun _ => marked_composes law (by decide),
    fun _ => marked_composes law (by decide),
    fun _ => marked_composes law (by decide),
    fun _ => constant_composes law (by decide),
    exceptional (by decide),
    exceptional (by decide),
    exceptional (by decide),
    exceptional (by decide),
    exceptional (by decide),
    exceptional (by decide),
    exceptional (by decide),
    fun _ => aliasRule_composes law,
    fun _ => variableAliasRule_composes law,
    fun _ => undefRule_composes law,
    fun _ => binaryRule_composes law,
    fun _ => unaryRule_composes law,
    fun _ => definedRule_composes law⟩

/-- The exceptional nodes other than comments, definitions and calls with arguments. -/
theorem all_exceptionalRule {b : Bool} {inner : Normalizer} (each : Upholds known ctx P inner b)
    {n : Node} (h : known (.expression b) n) {rule : Rule} (found : rule? n.tag = some rule)
    (isTag : n.tag ∈ exceptionalTags) (notCall : n.tag ≠ "method_add_arg")
    (notComment : n.tag ≠ "comment") (notDefinition : n.tag ∉ Raw.definitionTags) :
    Ensures (rule inner (ctx.within b) n) (Form.All P) := by
  simp only [Raw.definitionTags, List.mem_cons, List.not_mem_nil, or_false, not_or] at notDefinition
  simp only [exceptionalTags, shiftingTags, List.mem_cons, List.not_mem_nil, or_false, notCall,
    notComment, notDefinition, false_or] at isTag
  have assigns := assigns_of_known law.closed h
  obtain isTag | isTag | isTag | isTag | isTag | isTag | isTag | isTag | isTag | isTag := isTag
  all_goals
    rw [isTag] at found
    obtain rfl := Option.some.inj found
  · exact all_textTokenRule law each h
  · exact all_sequenceRule law each h
  · exact all_sequenceRule law each h
  · exact all_assignRule law each (assigns (by simp [isTag]))
  · exact all_operatorAssignRule law each (assigns (by simp [isTag]))
  · exact all_multipleAssignRule law each (assigns (by simp [isTag]))
  · exact all_forLoop law each (assigns (by simp [isTag]))
  · exact all_sequenceRule law each h
  · exact all_blockCallRule law each h isTag
  · exact all_parametersRule law each h

/-! ### The induction -/

/-- The rules for definitions define something. -/
theorem defines_rule {inner : Normalizer} (each : ∀ b, Upholds known ctx P inner b) {p : Site}
    {n : Node} (h : known p n) (isExpression : p.role = .expression)
    (isDefinition : n.tag ∈ Raw.definitionTags) {rule : Rule} (found : rule? n.tag = some rule) :
    Ensures (rule inner (ctx.within p.inMethodBody) n) (Defines P) := by
  simp only [Raw.definitionTags, List.mem_cons, List.not_mem_nil, or_false] at isDefinition
  obtain isTag | isTag | isTag | isTag | isTag := isDefinition
  all_goals
    rw [isTag] at found
    obtain rfl := Option.some.inj found
  · exact defines_methodRule law each h isExpression isTag
  · exact defines_singletonMethodRule law each h isExpression isTag
  · exact defines_classRule law each h isExpression isTag
  · exact defines_moduleRule law each h isExpression isTag
  · exact defines_singletonClassRule law each h isExpression isTag

/-- A definition with its comment, given what its rule makes of it. -/
theorem all_definition {p : Site} {n : Node} {f : Form} (h : known p n)
    (isExpression : p.role = .expression) (isDefinition : n.tag ∈ Raw.definitionTags)
    (defines : Defines P f)
    (normal : normalizeNode (ctx.within p.inMethodBody) n =
      .ok (settle (ctx.within p.inMethodBody) n f)) :
    ((settle (ctx.within p.inMethodBody) n f).commented p.comment).All P := by
  have filled := Form.filled_settle (ctx.within p.inMethodBody) n f
  refine Form.all_iff.2 ⟨?_, Form.all_items_settle law.lineFree defines.inside _ n⟩
  apply law.defined h isExpression isDefinition normal
  · rw [filled.tag]
    exact defines.tag
  · rw [filled.comments]
    exact defines.comments
  · exact lineFree_conforms filled defines.conforms

/-- What a comment wraps, given that it has the property with the comment on it. -/
theorem all_comment {p : Site} {n : Node} (h : known p n) (isExpression : p.role = .expression)
    (isComment : n.tag = "comment") {inner : Normalizer}
    (each : ∀ q m, known q m → q.role = .expression →
      Ensures (inner (ctx.within q.inMethodBody) m) (fun f => (f.commented q.comment).All P)) :
    Ensures (commentRule inner (ctx.within p.inMethodBody) n)
      (fun f => (f.commented p.comment).All P) := by
  simp only [commentRule, ensures_bind, ensures_pure]
  intro text isText
  refine ensures_nodeAt fun m found => ?_
  have below : p.below n 1 = ⟨p.inMethodBody, .expression, p.comment.or (some text)⟩ := by
    simp [Site.below, isExpression, isComment, Role.below, bodyScope?, isText, Except.toOption]
  have child := each _ m (below ▸ law.closed h found) rfl
  refine child.mono fun f inside => ?_
  cases comment : p.comment <;> rw [comment] at inside <;> exact inside

/-- A call with its arguments, given that the callee is normalised. -/
theorem all_argumentsRule {b : Bool} {n : Node} (h : known (.expression b) n)
    (isTag : n.tag = "method_add_arg") {inner : Normalizer} (each : Upholds known ctx P inner b)
    (normal : ∀ m f, inner (ctx.within b) m = .ok f → normalizeNode (ctx.within b) m = .ok f) :
    Ensures (argumentsRule inner (ctx.within b) n) (Form.All P) := by
  have opens := law.closed.opens rfl h (by rw [isTag]; decide)
  simp only [argumentsRule, ensures_bind, ensures_pure]
  intro m isCallee f isCall
  have call := each.nodeAt (opens 0) m isCallee f isCall
  refine (each.arguments law.closed (opens 1)).mono fun args areArgs => ?_
  refine Form.all_iff.2 ⟨law.extended h isTag isCallee (normal m f isCall) call.root args, ?_⟩
  exact List.forall_mem_append.2 ⟨call.items, Form.all_map_toItem.2 areArgs⟩

/-- The property holds everywhere in the normal form of an expression that has its comment. -/
theorem all_normalizeNode (n : Node) (p : Site) (h : known p n)
    (isExpression : p.role = .expression) :
    Ensures (normalizeNode (ctx.within p.inMethodBody) n)
      (fun f => (f.commented p.comment).All P) := by
  induction size : n.size using Nat.strongRecOn generalizing n p with
  | ind s ih =>
    subst size
    intro form isForm
    have step := isForm
    rw [normalizeNode_eq] at step
    generalize isInner : (fun ctx m => if m.size < n.size then normalizeNode ctx m
      else .error (.unsupported m.tag none) : Normalizer) = inner at step
    have normal (ctx : Context) (m : Node) (f : Form) (isForm : inner ctx m = .ok f) :
        m.size < n.size ∧ normalizeNode ctx m = .ok f := by
      rw [← isInner] at isForm
      dsimp only at isForm
      split at isForm
      · exact ⟨‹_›, isForm⟩
      · cases isForm
    have below (q : Site) (m : Node) (h : known q m) (isExpression : q.role = .expression) :
        Ensures (inner (ctx.within q.inMethodBody) m) (fun f => (f.commented q.comment).All P) := by
      intro f isForm
      obtain ⟨smaller, isNormal⟩ := normal _ m f isForm
      exact ih m.size smaller m q h isExpression rfl f isNormal
    have each (b : Bool) : Upholds known ctx P inner b :=
      fun m h => below (.expression b) m h rfl
    rw [normalizeStep] at step
    split at step
    · cases step
    rename_i rule found
    obtain ⟨f, isRule, rfl⟩ := map_eq_ok.1 step
    by_cases isDefinition : n.tag ∈ Raw.definitionTags
    · have defines := defines_rule law each h isExpression isDefinition found f isRule
      exact all_definition law h isExpression isDefinition defines isForm
    by_cases isComment : n.tag = "comment"
    · rw [isComment] at found
      obtain rfl := Option.some.inj found
      rw [settle_commented]
      exact (all_comment law h isExpression isComment below f isRule).settle law.lineFree _ n
    obtain ⟨h, keeps⟩ := law.commented h isExpression isComment isDefinition
    have inside : f.All P := by
      by_cases isCall : n.tag = "method_add_arg"
      · rw [isCall] at found
        obtain rfl := Option.some.inj found
        exact all_argumentsRule law h isCall (each _) (fun m f isForm => (normal _ m f isForm).2) f
          isRule
      by_cases isTag : n.tag ∈ exceptionalTags
      · exact all_exceptionalRule law (each _) h found isTag isCall isComment isDefinition f isRule
      · have unshifting : n.tag ∉ shiftingTags := by
          intro isShifting
          exact isTag (by simp [exceptionalTags, isShifting])
        have opens := law.closed.opens rfl h unshifting
        exact rules_compose law _ (mem_rules found) isTag inner _ (each _) n opens f isRule
    have settled := inside.settle law.lineFree (ctx.within p.inMethodBody) n
    exact Form.all_iff.2 ⟨keeps settled.root, settled.items⟩

end Table

/-- The property holds everywhere in the normal form of a program. -/
theorem all_normalize {config : Config} {source : Source}
    (law : Law known (.ofSource source config) P) {r : Raw}
    (root : ∀ n, r.node? = some n → known {} n) :
    Ensures (normalize config source r) (fun o => ∀ f ∈ o, f.All P) := by
  have each : Upholds known (.ofSource source config) P normalizeNode false :=
    fun n h => all_normalizeNode law n (.expression false) h rfl
  cases r with
  | node tag children =>
    have h := root ⟨tag, children⟩ rfl
    simp only [normalize, normalizeProgram]
    split
    · rename_i isProgram
      have isProgram : tag = "program" := eq_of_beq isProgram
      have ordinary : tag ∉ shiftingTags := by rw [isProgram]; decide
      have opens := law.closed.opens rfl h ordinary
      simp only [ensures_bind, ensures_pure]
      refine (all_body law each (opens 0)).mono fun o inside => ?_
      intro f isForm
      obtain ⟨g, isBody, rfl⟩ := Option.map_eq_some_iff.1 isForm
      exact (inside g isBody).settleLines law.lineFree
    · simp only [ensures_bind, ensures_pure]
      refine (each ⟨tag, children⟩ h).mono fun f inside => ?_
      simpa using inside
  | _ =>
    unfold normalize
    dsimp only
    split <;> simp

end RubyNormalForm
