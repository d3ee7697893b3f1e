import RubyNormalForm.Proofs.Rules.Regular

/-!
# Rules whose results are known by their tags

Most rules give forms of one or two fixed tags. Such a form is regular for its tag alone,
whatever the normaliser of the smaller nodes gives.
-/

namespace RubyNormalForm

namespace Form

variable {f : Form}

@[simp] theorem ordinary_of {tag : String} {items : List Item} :
    (Form.of tag items).Ordinary ↔ tag ≠ "not" ∧ tag ≠ "str" ∧ tag ≠ "dstr" := Iff.rfl

@[simp] theorem ordinary_group {tag : String} {forms : List Form} :
    (Form.group tag forms).Ordinary ↔ tag ≠ "not" ∧ tag ≠ "str" ∧ tag ≠ "dstr" := Iff.rfl

@[simp] theorem ordinary_withLine {line : Option Nat} :
    (f.withLine line).Ordinary ↔ f.Ordinary := Iff.rfl

@[simp] theorem ordinary_push {item : Item} : (f.push item).Ordinary ↔ f.Ordinary := Iff.rfl

@[simp] theorem ordinary_pushAll {forms : List Form} :
    (f.pushAll forms).Ordinary ↔ f.Ordinary := Iff.rfl

@[simp] theorem ordinary_push? {g : Option Form} : (f.push? g).Ordinary ↔ f.Ordinary := by
  cases g <;> exact Iff.rfl

@[simp] theorem ordinary_raiseLines : f.raiseLines.Ordinary ↔ f.Ordinary := Iff.rfl

end Form

/-- A rule that gives ordinary forms only. -/
def Rule.Ordinary (rule : Rule) : Prop :=
  ∀ inner ctx n, Ensures (rule inner ctx n) Form.Ordinary

namespace Rules

@[simp] theorem ordinary_array (forms : List Form) : (array forms).Ordinary := by
  simp [array]

@[simp] theorem ordinary_literal (item : Item) : (literal item).Ordinary := by
  simp [literal]

@[simp] theorem ordinary_branch (c : Condition) (swap : Bool) (yes no : Option Form) :
    (branch c swap yes no).Ordinary := by
  rw [branch]
  split <;> simp

@[simp] theorem ordinary_iteration (call : Form) (parameters : Item) (inside : Option Form) :
    (iteration call parameters inside).Ordinary := by
  simp [iteration]

@[simp] theorem ordinary_definition {tag : String} {header : List Item} {inside : List Form} :
    (definition tag header inside).Ordinary ↔ tag ≠ "not" ∧ tag ≠ "str" ∧ tag ≠ "dstr" := Iff.rfl

@[simp] theorem ordinary_range (exclusive : Bool) (first last : Option Form) :
    (range exclusive first last).Ordinary := by
  rw [range]
  split
  · simp
  · cases exclusive <;> simp

@[simp high] theorem ordinary_loopTag (isUntil : Bool) (c : Condition) (items : List Item) :
    (Form.of (loopTag isUntil c) items).Ordinary := by
  rw [loopTag]
  split <;> simp

@[simp high] theorem ordinary_callTag (operator : Raw) (items : List Item) :
    (Form.of (callTag operator) items).Ordinary := by
  rw [callTag]
  split <;> simp

/-- A literal is ordinary if its plain form is, and the tag of its interpolated form. -/
theorem ordinary_literalForm {encoding : Encoding} {plain : ByteString → Form} {tag : String}
    (isPlain : ∀ s, (plain s).Ordinary) (isTag : tag ≠ "not" ∧ tag ≠ "str" ∧ tag ≠ "dstr")
    (ps : List Piece) : (literalForm encoding plain tag ps).Ordinary := by
  rw [literalForm]
  split
  · exact isPlain _
  · exact isTag

@[simp] theorem ordinary_symbolForm (encoding : Encoding) (ps : List Piece) :
    (symbolForm encoding ps).Ordinary :=
  ordinary_literalForm (by simp) (by decide) ps

@[simp] theorem ordinary_commandForm (encoding : Encoding) (ps : List Piece) :
    (commandForm encoding ps).Ordinary :=
  ordinary_literalForm (by simp) (by decide) ps

@[simp] theorem ordinary_regexpForm (encoding : Encoding) (flags : Regexp.Flags)
    (ps : List Piece) : (regexpForm encoding flags ps).Ordinary := by
  rw [regexpForm]
  split
  · simp
  · dsimp only
    cases flags.once <;> by_cases plain : flags.options = 0 <;> simp [plain]

@[simp] theorem ordinary_methodParameters (inner : Normalizer) (ctx : Context) (child : Raw) :
    Ensures (methodParameters inner ctx child) Form.Ordinary := by
  unfold methodParameters
  dsimp only
  split <;> simp

/-- A number with its sign changed is still a literal. -/
theorem negatedLiteral?_tag {f g : Form} (negated : negatedLiteral? f = some g) :
    g.tag = "lit" := by
  rw [negatedLiteral?] at negated
  split at negated
  · rename_i isLit _
    obtain ⟨item, -, rfl⟩ := Option.map_eq_some_iff.1 negated
    exact eq_of_beq isLit
  · cases negated

@[simp] theorem ordinary_unary (operator : String) (operand : Option Form) :
    (unary operator operand).Ordinary := by
  rw [unary]
  dsimp only
  split
  · simp
  · split
    · cases negated : operand.bind negatedLiteral? with
      | none => simp
      | some g =>
        obtain ⟨f, -, isNegated⟩ := Option.bind_eq_some_iff.1 negated
        simp [Form.Ordinary, negatedLiteral?_tag isNegated]
    · simp

theorem assignmentTag?_ordinary {ctx : Context} {kind tag : String}
    (found : assignmentTag? ctx kind = some tag) : tag ≠ "not" ∧ tag ≠ "str" ∧ tag ≠ "dstr" := by
  rw [assignmentTag?] at found
  grind

@[simp] theorem ordinary_tokenTarget (ctx : Context) (n : Raw.Node) :
    Ensures (tokenTarget ctx n) Form.Ordinary := by
  rw [tokenTarget]
  rw [ensures_bind]
  apply Ensures.of_forall
  intro t
  split
  · rename_i tag found
    simpa using assignmentTag?_ordinary found
  · exact ensures_throw _

@[simp] theorem ordinary_attributeTarget (inner : Normalizer) (ctx : Context) (n : Raw.Node) :
    Ensures (attributeTarget inner ctx n) Form.Ordinary := by
  cases safe : isSafeNavigation (n.slot 1) <;> simp [attributeTarget, safe]

@[simp] theorem ordinary_leafTarget (inner : Normalizer) (ctx : Context) (n : Raw.Node) :
    Ensures (leafTarget inner ctx n) Form.Ordinary := by
  simp [leafTarget, elementTarget]

theorem ordinary_target (inner : Normalizer) (ctx : Context) (value : Option Form) (child : Raw) :
    Ensures (target inner ctx value child) Form.Ordinary := by
  cases child with
  | node tag children =>
    unfold target
    split
    · cases children with
      | nil => exact ensures_error _
      | cons first rest =>
        have inside := ordinary_target inner ctx value first
        simp [inside]
    · split
      · simp
      · split
        · cases children with
          | nil => simp
          | cons first rest => simp
        · simp [assigned]
  | _ => exact ensures_error _

theorem ordinary_undefs (inner : Normalizer) (ctx : Context) (nodes : List Raw.Node) :
    Ensures (undefs inner ctx nodes) (fun fs => ∀ f ∈ fs, f.Ordinary) := by
  induction nodes with
  | nil => simp [undefs]
  | cons n rest ih =>
    simp only [undefs, ensures_bind, ensures_pure]
    apply Ensures.of_forall
    intro form
    refine ih.mono ?_
    intro forms others
    simpa using others

theorem ordinary_undefRule : Rule.Ordinary undefRule := by
  intro inner ctx n
  simp only [undefRule, ensures_bind]
  apply Ensures.of_forall
  intro nodes
  refine (ordinary_undefs inner ctx nodes).mono ?_
  intro forms each
  split
  · exact ensures_throw _
  · simpa using each
  · simp

theorem ordinary_caseRule : Rule.Ordinary caseRule := by
  intro inner ctx n
  simp only [caseRule, ensures_bind]
  apply Ensures.of_forall
  intro subject
  apply Ensures.of_forall
  intro first
  apply Ensures.of_forall
  intro clauses
  split <;> simp

theorem ordinary_numberRule (kind : NumberKind) (read : String → Option Item) :
    Rule.Ordinary (numberRule kind read) := by
  intro inner ctx n
  simp only [numberRule, ensures_bind]
  apply Ensures.of_forall
  intro t
  split <;> simp

theorem ordinary_assign (inner : Normalizer) (ctx : Context) (value : Option Form)
    (n : Raw.Node) : Ensures (assign inner ctx value n) Form.Ordinary :=
  ordinary_target inner ctx value n.toRaw

theorem ordinary_attributeOperation (operator : String) (value : Form) :
    Rule.Ordinary (attributeOperation operator value) := by
  intro inner ctx n
  cases safe : isSafeNavigation (n.slot 1) <;> simp [attributeOperation, safe]

theorem ordinary_operatorAssignRule : Rule.Ordinary operatorAssignRule := by
  intro inner ctx n
  simp only [operatorAssignRule, ensures_bind]
  apply Ensures.of_forall
  intro left
  apply Ensures.of_forall
  intro operator
  apply Ensures.of_forall
  intro node
  apply Ensures.of_forall
  intro value
  split
  · simp [elementOperation]
  · split
    · exact ordinary_attributeOperation _ _ inner ctx left
    · simp [variableOperation, ordinary_assign]

theorem ordinary_assignRule : Rule.Ordinary assignRule := by
  intro inner ctx n
  simp [assignRule, ordinary_assign]

end Rules

end RubyNormalForm
