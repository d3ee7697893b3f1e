import RubyNormalForm.Proofs.Rules.Composition.Basic

/-!
# What assignments compose

A target is a token or holds expressions; lists of targets and splats hold further targets. The
assignment to a class variable is the one node here that the law takes from a site.
-/

namespace RubyNormalForm.Rules

open Raw

variable {known : Site → Node → Prop} {ctx : Context} {P : Form → Prop}

/-- A node there is a target in the given scope. -/
def Aims (known : Site → Node → Prop) (b : Bool) (r : Raw) : Prop :=
  ∀ n, r.node? = some n → known (.target b) n

theorem aims_node {b : Bool} {tag : String} {children : List Raw} :
    Aims known b (.node tag children) ↔ known (.target b) ⟨tag, children⟩ := by
  constructor
  · intro h
    exact h _ rfl
  · rintro h m ⟨⟩
    exact h

theorem below_target (b : Bool) (n : Node) (i : Nat) :
    (Site.target b).below n i = ⟨b, Role.below .target n.tag i, none⟩ := by
  simp [Site.below, Site.target]

/-- The first child of a target that only marks what is inside it. -/
theorem aims_slot (closed : Closed known) {b : Bool} {n : Node} (h : known (.target b) n)
    (marks : n.tag = "var_field" ∨ n.tag = "star" ∨ n.tag = "rest_param") :
    Aims known b (n.slot 0) := by
  intro m found
  have below := closed h found
  rw [below_target] at below
  obtain isTag | isTag | isTag := marks <;> rw [isTag] at below <;> exact below

/-- The children of a list of targets. -/
theorem aims_children (closed : Closed known) {b : Bool} {n : Node} (h : known (.target b) n)
    (isList : n.tag = "mlhs" ∨ n.tag = listTag) : ∀ c ∈ n.children, Aims known b c := by
  rintro c member m found
  obtain ⟨i, rfl⟩ := Node.exists_slot_of_mem member
  have below := closed h found
  rw [below_target] at below
  obtain isTag | isTag := isList <;> rw [isTag] at below <;> exact below

/-- The children of a target that holds no further target. -/
theorem opens_target (closed : Closed known) {b : Bool} {n : Node} (h : known (.target b) n)
    {tag : String} (isTag : n.is tag = true)
    (isLeaf : ∀ i, Role.below .target tag i = .expression) : Opens known b n := by
  intro i m found
  have below := closed h found
  have isTag : n.tag = tag := eq_of_beq isTag
  rw [below_target, isTag, isLeaf] at below
  exact below

theorem isFree_of_assignmentTag? {kind tag : String} (other : kind ≠ "cvar")
    (found : assignmentTag? ctx kind = some tag) : IsFree tag := by
  simp only [assignmentTag?, beq_iff_eq, other, if_false] at found
  split at found
  · cases found
    decide
  split at found
  · cases found
    decide
  split at found
  · cases found
    decide
  split at found
  · cases found
    decide
  · cases found

theorem isFree_of_readTag? {kind tag : String} (found : readTag? kind = some tag) :
    IsFree tag := by
  rw [readTag?] at found
  split at found
  · cases found
    decide
  split at found
  · rename_i isVariable
    cases found
    simp only [Bool.or_eq_true, beq_iff_eq] at isVariable
    obtain ((isKind | isKind) | isKind) | isKind := isVariable <;> rw [isKind] <;> decide
  · cases found

/-- The target has the property everywhere, whatever value it takes. -/
def Takes (P : Form → Prop) (f : Form) : Prop :=
  ∀ value : Option Form, (∀ g ∈ value, g.All P) → (assigned value f).All P

theorem takes_of (law : Law known ctx P) {tag : String} (free : IsFree tag) {items : List Item}
    (inside : ∀ x ∈ items, x.All P) : Takes P (Form.of tag items) := by
  intro value isValue
  exact (law.all_push? free).2 ⟨inside, isValue⟩

theorem Takes.withLine (law : Law known ctx P) {f : Form} (h : Takes P f) (line : Option Nat) :
    Takes P (f.withLine line) := by
  intro value isValue
  have whole := law.withLine (h value isValue) line
  cases value with
  | none => exact whole
  | some g => exact whole

section Targets

variable (law : Law known ctx P) {inner : Normalizer} {b : Bool}
variable (each : Upholds known ctx P inner b)
include law each

theorem all_constantPath (top : Bool) {n : Node} (opens : Opens known b n) :
    Ensures (constantPath top inner (ctx.within b) n) (Form.All P) := by
  rw [constantPath]
  split
  · simp only [ensures_bind, ensures_pure]
    apply Ensures.of_forall
    intro text
    simp (disch := decide) [law.all_of]
  · simp only [ensures_bind, ensures_pure]
    refine (each.nodeAt (opens 0)).mono fun m inside => ?_
    refine inside.mono fun scope isScope => ?_
    apply Ensures.of_forall
    intro text
    simpa (disch := decide) [law.all_of] using isScope

theorem takes_attributeTarget {n : Node} (opens : Opens known b n) :
    Ensures (attributeTarget inner (ctx.within b) n) (Takes P) := by
  simp only [attributeTarget, ensures_bind, ensures_pure]
  refine (each.nodeAt (opens 0)).mono fun m inside => ?_
  refine inside.mono fun receiver isReceiver => ?_
  apply Ensures.of_forall
  intro method
  split <;> exact takes_of law (by decide) (by simpa using isReceiver)

theorem takes_elementTarget {n : Node} (opens : Opens known b n) :
    Ensures (elementTarget inner (ctx.within b) n) (Takes P) := by
  simp only [elementTarget, ensures_bind, ensures_pure]
  refine (each.nodeAt (opens 0)).mono fun m inside => ?_
  refine inside.mono fun receiver isReceiver => ?_
  refine (each.arguments law.closed (opens 1)).mono fun args areArgs => ?_
  show Takes P (Form.of "attrasgn" ([receiver.toItem, .sym "[]="] ++ args.map Form.toItem))
  refine takes_of law (by decide) ?_
  simpa [or_imp, forall_and] using ⟨isReceiver, areArgs⟩

omit each in
theorem takes_tokenTarget {n : Node} (h : known (.target b) n) :
    Ensures (tokenTarget (ctx.within b) n) (Takes P) := by
  rw [tokenTarget, ensures_bind]
  intro t isToken
  by_cases isClassVariable : t.kind = "cvar"
  · have isTag : assignmentTag? (ctx.within b) t.kind = some (classVariableTag b) := by
      rw [isClassVariable]
      rfl
    rw [isTag, ensures_pure]
    intro value inside
    have root := law.assigned h isToken isClassVariable (value.toList.map Form.toItem)
    refine Form.all_iff.2 ?_
    cases value with
    | none => exact ⟨root, by simp [Form.of, Form.withLine, assigned, Form.push?]⟩
    | some g => exact ⟨root, by simpa [Form.of, Form.withLine, assigned, Form.push?, Form.push]
        using inside⟩
  · split
    · rename_i tag isTag
      rw [ensures_pure]
      have free := isFree_of_assignmentTag? isClassVariable isTag
      exact (takes_of law free (by simp)).withLine law _
    · exact ensures_throw _

theorem takes_leafTarget {n : Node} (h : known (.target b) n) :
    Ensures (leafTarget inner (ctx.within b) n) (Takes P) := by
  have opens {tag : String} (isTag : n.is tag = true) := opens_target law.closed h isTag
  rw [leafTarget]
  split
  · exact takes_tokenTarget law h
  split
  · rename_i isField
    exact takes_attributeTarget law each (opens isField fun _ => rfl)
  split
  · rename_i isElement
    exact takes_elementTarget law each (opens isElement fun _ => rfl)
  split
  · rename_i isPath
    have opens : Opens known b n := by
      obtain isPath | isPath := Bool.or_eq_true_iff.1 isPath
      · exact opens isPath fun _ => rfl
      · exact opens isPath fun _ => rfl
    simp only [ensures_bind, ensures_pure]
    refine (all_constantPath law each _ opens).mono fun path isConstant => ?_
    exact takes_of law (by decide) (by simpa using isConstant)
  · exact ensures_error _

end Targets

mutual

theorem all_target (law : Law known ctx P) {inner : Normalizer} {b : Bool}
    (each : Upholds known ctx P inner b) {value : Option Form} (isValue : ∀ g ∈ value, g.All P)
    {child : Raw} (aims : Aims known b child) :
    Ensures (target inner (ctx.within b) value child) (Form.All P) := by
  cases child with
  | node tag children =>
    have h := aims_node.1 aims
    have leaf : Ensures ((leafTarget inner (ctx.within b) ⟨tag, children⟩).map (assigned value))
        (Form.All P) := by
      rw [ensures_map]
      exact (takes_leafTarget law each h).mono fun f takes => takes value isValue
    have list (isList : (tag == "mlhs") = true) :
        Ensures (targets inner (ctx.within b) children >>= fun inside =>
          pure (Form.of "masgn" [(array inside).toItem])) (Form.All P) := by
      simp only [ensures_bind, ensures_pure]
      have inside := all_targets law each (aims_children law.closed h (.inl (eq_of_beq isList)))
      refine inside.mono fun forms areForms => ?_
      simpa (disch := decide) [law.all_of, law.all_array] using areForms
    have bare : (Form.of "splat" []).All P := law.all_bare (by decide)
    cases children with
    | nil =>
      rw [target]
      split
      · exact ensures_error _
      split
      · rename_i isList
        exact list isList
      split
      · exact (ensures_ok _).2 bare
      · exact leaf
    | cons first rest =>
      rw [target]
      split
      · rename_i isField
        have marks : tag = "var_field" := eq_of_beq isField
        split
        · exact ensures_error _
        split
        · exact ensures_error _
        · exact all_target law each isValue (aims_slot law.closed h (.inl marks))
      split
      · rename_i isList
        exact list isList
      split
      · rename_i isRest
        have marks : tag = "star" ∨ tag = "rest_param" := by simpa [isRestTag] using isRest
        split
        · exact (ensures_ok _).2 bare
        split
        · exact ensures_error _
        · have none : ∀ g ∈ (none : Option Form), g.All P := by simp
          simp only [ensures_bind, ensures_pure]
          refine (all_target law each none (aims_slot law.closed h (.inr marks))).mono ?_
          intro form isForm
          simpa (disch := decide) [law.all_of] using isForm
      · exact leaf
  | _ => exact ensures_error _

theorem all_targets (law : Law known ctx P) {inner : Normalizer} {b : Bool}
    (each : Upholds known ctx P inner b) {children : List Raw}
    (aims : ∀ c ∈ children, Aims known b c) :
    Ensures (targets inner (ctx.within b) children) (fun forms => ∀ f ∈ forms, f.All P) := by
  cases children with
  | nil => simp [targets]
  | cons child rest =>
    rw [List.forall_mem_cons] at aims
    have none : ∀ g ∈ (none : Option Form), g.All P := by simp
    have first := all_target law each none aims.1
    have others := all_targets law each aims.2
    rw [targets]
    split
    · exact others
    · simp only [ensures_bind, ensures_pure]
      refine first.mono fun form isForm => ?_
      refine others.mono fun forms areForms => ?_
      exact List.forall_mem_cons.2 ⟨isForm, areForms⟩

end

/-- The first child of the node is a target, and the others are expressions. -/
structure Assigns (known : Site → Node → Prop) (b : Bool) (n : Node) : Prop where
  left : Aims known b (n.slot 0)
  others : ∀ i, Reads known b (n.slot (i + 1))

theorem assigns_of_known (closed : Closed known) {b : Bool} {n : Node}
    (h : known (.expression b) n)
    (isAssignment : n.tag ∈ ["assign", "opassign", "massign", "for"]) : Assigns known b n := by
  have below (i : Nat) : (Site.expression b).below n i =
      ⟨b, if i = 0 then .target else .expression, none⟩ := by
    simp only [List.mem_cons, List.not_mem_nil, or_false] at isAssignment
    obtain isTag | isTag | isTag | isTag := isAssignment <;>
      cases i <;> simp [Site.below, Site.expression, isTag, Role.below, bodyScope?]
  constructor
  · intro m found
    have h := closed h found
    rwa [below] at h
  · intro i m found
    have h := closed h found
    rwa [below] at h

section Assignments

variable (law : Law known ctx P) {inner : Normalizer} {b : Bool}
variable (each : Upholds known ctx P inner b) {n : Node}
include law each

theorem all_assign {value : Option Form} (isValue : ∀ g ∈ value, g.All P)
    (h : known (.target b) n) : Ensures (assign inner (ctx.within b) value n) (Form.All P) :=
  all_target law each isValue (aims_node.2 h)

theorem all_leftSide (h : known (.target b) n) :
    Ensures (leftSide inner (ctx.within b) n) (fun forms => ∀ f ∈ forms, f.All P) := by
  rw [leftSide]
  split
  · rename_i isList
    have isList : n.tag = listTag ∨ n.tag = "mlhs" := by
      simpa [isTargetList, Node.isList, Node.is] using isList
    exact all_targets law each (aims_children law.closed h isList.symm)
  · rw [ensures_map]
    refine (all_assign law each (by simp) h).mono fun f isForm => ?_
    simpa using isForm

theorem all_loopVariable (h : known (.target b) n) :
    Ensures (loopVariable inner (ctx.within b) n) (Form.All P) := by
  rw [loopVariable]
  split
  · simp only [ensures_bind, ensures_pure]
    refine (all_leftSide law each h).mono fun forms areForms => ?_
    simpa (disch := decide) [law.all_of, law.all_array] using areForms
  · exact all_assign law each (by simp) h

theorem all_rightSide {ofList : List Form → Form} {ofValue : Form → Form}
    (lists : ∀ forms, (∀ f ∈ forms, f.All P) → (ofList forms).All P)
    (values : ∀ f, f.All P → (ofValue f).All P) (reads : Reads known b (n.slot 1)) :
    Ensures (rightSide ofList ofValue inner (ctx.within b) n) (Form.All P) := by
  rw [rightSide]
  split
  · rename_i tag children eq
    rw [eq] at reads
    split
    · rw [ensures_map]
      exact (each.arguments law.closed reads).mono lists
    · rw [ensures_map]
      exact (each _ (reads_node.1 reads)).mono values
  · exact ensures_error _

omit each in
theorem all_listValue {forms : List Form} (inside : ∀ f ∈ forms, f.All P) :
    (listValue forms).All P := by
  unfold listValue
  split
  · split <;> simpa (disch := decide) [law.all_of, law.all_array] using inside
  · simpa (disch := decide) [law.all_of, law.all_array] using inside

omit each in
theorem all_multipleValue {forms : List Form} (inside : ∀ f ∈ forms, f.All P) :
    (multipleValue forms).All P := by
  unfold multipleValue
  split
  · split <;> simpa [law.all_array] using inside
  · simpa [law.all_array] using inside

theorem all_assignRule (assigns : Assigns known b n) :
    Ensures (assignRule inner (ctx.within b) n) (Form.All P) := by
  simp only [assignRule, ensures_bind]
  refine (ensures_nodeAt assigns.left).mono fun left isLeft => ?_
  refine (all_rightSide law each (fun _ => all_listValue law) (fun _ h => h)
    (assigns.others 0)).mono fun value isValue => ?_
  exact all_assign law each (by simpa using isValue) isLeft

theorem all_multipleAssignRule (assigns : Assigns known b n) :
    Ensures (multipleAssignRule inner (ctx.within b) n) (Form.All P) := by
  simp only [multipleAssignRule, ensures_bind, ensures_pure]
  refine (ensures_nodeAt assigns.left).mono fun left isLeft => ?_
  refine (all_leftSide law each isLeft).mono fun targets areTargets => ?_
  refine (all_rightSide law each (fun _ => all_multipleValue law) ?_
    (assigns.others 0)).mono fun value isValue => ?_
  · intro f isForm
    simpa (disch := decide) [law.all_of] using isForm
  · simpa (disch := decide) [law.all_of, law.all_array] using ⟨areTargets, isValue⟩

/-! ### Operator assignments -/

theorem all_readTarget (h : known (.target b) n) :
    Ensures (readTarget inner (ctx.within b) n) (Form.All P) := by
  rw [readTarget]
  split
  · simp only [ensures_bind]
    apply Ensures.of_forall
    intro node
    apply Ensures.of_forall
    intro t
    split
    · rename_i tag isTag
      rw [ensures_pure]
      exact law.withLine ((law.all_of (isFree_of_readTag? isTag)).2 (by simp)) _
    · exact ensures_throw _
  split
  · rename_i isPath
    refine all_constantPath law each _ ?_
    obtain isTag | isTag := Bool.or_eq_true_iff.1 isPath
    · exact opens_target law.closed h isTag fun _ => rfl
    · exact opens_target law.closed h isTag fun _ => rfl
  · exact ensures_throw _

theorem all_elementOperation (operator : String) {value : Form} (isValue : value.All P)
    (opens : Opens known b n) :
    Ensures (elementOperation operator value inner (ctx.within b) n) (Form.All P) := by
  simp only [elementOperation, ensures_bind, ensures_pure]
  refine (each.nodeAt (opens 0)).mono fun m inside => ?_
  refine inside.mono fun receiver isReceiver => ?_
  refine (each.arguments law.closed (opens 1)).mono fun args areArgs => ?_
  simpa (disch := decide) [law.all_of, law.all_group] using ⟨isReceiver, areArgs, isValue⟩

theorem all_attributeOperation (operator : String) {value : Form} (isValue : value.All P)
    (opens : Opens known b n) :
    Ensures (attributeOperation operator value inner (ctx.within b) n) (Form.All P) := by
  simp only [attributeOperation, ensures_bind, ensures_pure]
  refine (each.nodeAt (opens 0)).mono fun m inside => ?_
  refine inside.mono fun receiver isReceiver => ?_
  apply Ensures.of_forall
  intro method
  split <;> simpa (disch := decide) [law.all_of] using ⟨isReceiver, isValue⟩

theorem all_variableOperation (operator : String) {value : Form} (isValue : value.All P)
    (h : known (.target b) n) :
    Ensures (variableOperation operator value inner (ctx.within b) n) (Form.All P) := by
  simp only [variableOperation, ensures_bind]
  refine (all_readTarget law each h).mono fun read isRead => ?_
  have taken : Ensures (assign inner (ctx.within b) (some value) n) (Form.All P) :=
    all_assign law each (by simpa using isValue) h
  split
  · simp only [ensures_bind, ensures_pure]
    refine taken.mono fun form isForm => ?_
    simpa (disch := decide) [law.all_of] using ⟨isRead, isForm⟩
  split
  · simp only [ensures_bind, ensures_pure]
    refine taken.mono fun form isForm => ?_
    simpa (disch := decide) [law.all_of] using ⟨isRead, isForm⟩
  · have receiver : ∀ f ∈ some read, f.All P := by simpa using isRead
    have args : ∀ f ∈ [value], f.All P := by simpa using isValue
    have call := law.withLine (law.all_call (.inl rfl) receiver operator args) read.line
    refine all_assign law each ?_ h
    rintro f ⟨⟩
    exact call

theorem all_operatorAssignRule (assigns : Assigns known b n) :
    Ensures (operatorAssignRule inner (ctx.within b) n) (Form.All P) := by
  simp only [operatorAssignRule, ensures_bind]
  refine (ensures_nodeAt assigns.left).mono fun left isLeft => ?_
  apply Ensures.of_forall
  intro operator
  refine (each.nodeAt (assigns.others 1)).mono fun m inside => ?_
  refine inside.mono fun value isValue => ?_
  have opens {tag : String} (isTag : left.is tag = true) := opens_target law.closed isLeft isTag
  split
  · rename_i isElement
    exact all_elementOperation law each _ isValue (opens isElement fun _ => rfl)
  split
  · rename_i isField
    exact all_attributeOperation law each _ isValue (opens isField fun _ => rfl)
  · exact all_variableOperation law each _ isValue isLeft

end Assignments

end RubyNormalForm.Rules
