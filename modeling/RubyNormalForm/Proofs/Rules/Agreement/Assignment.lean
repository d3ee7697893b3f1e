import RubyNormalForm.Proofs.Rules.Agreement.Basic

/-!
# Agreement of arguments and assignments

The two runs agree on whatever holds arguments, on the targets of assignments and on the
assignments themselves. Where a rule looks at a tag to choose between two forms, both runs
make the same choice.
-/

namespace RubyNormalForm.Rules

variable {k : Likeness} {p : Raw → Prop}

/-! ### Marked arguments and jumps -/

theorem like_array {fs gs : List Form} (h : List.Forall₂ (Form.Like k) fs gs) :
    (array fs).Like k (array gs) :=
  Form.like_group "array" h

theorem constant_respects (tag : String) : Rule.Respects (constant tag) k p := by
  intro inner each ctx ctx' alike n hn
  exact .ok (by simp)

theorem marked_respects (hp : Raw.Hereditary p) (tag : String) :
    Rule.Respects (marked tag) k p := by
  intro inner each ctx ctx' alike n hn
  refine (agree_value? each alike (hp.slot hn 0)).bind fun f g same => .pure ?_
  exact Form.Like.push? (by simp) same

theorem like_jumpValue {fs gs : List Form} (h : List.Forall₂ (Form.Like k) fs gs) :
    Option.Rel (Form.Like k) (jumpValue fs) (jumpValue gs) := by
  cases h with
  | nil => exact .none
  | cons first others =>
    cases others with
    | nil =>
      simp only [jumpValue, first.is]
      refine .some ?_
      split
      · simp [first]
      · exact first
    | cons second more => exact .some (like_array (.cons first (.cons second more)))

theorem jump_respects (hp : Raw.Hereditary p) (tag : String) : Rule.Respects (jump tag) k p := by
  intro inner each ctx ctx' alike n hn
  refine (agree_arguments each alike hp (hp.slot hn 0)).bind fun fs gs same => .pure ?_
  exact Form.Like.push? (by simp) (like_jumpValue same)

/-! ### Targets -/

theorem constantPath_respects (hp : Raw.Hereditary p) (top : Bool) :
    Rule.Respects (constantPath top) k p := by
  intro inner each ctx ctx' alike n hn
  cases top with
  | true =>
    refine .bind_same fun method _ => .pure ?_
    simp
  | false =>
    refine agree_child each alike hp hn fun f g same => .bind_same fun method _ => .pure ?_
    simp [same]

theorem attributeTarget_respects (hp : Raw.Hereditary p) :
    Rule.Respects attributeTarget k p := by
  intro inner each ctx ctx' alike n hn
  refine agree_child each alike hp hn fun f g same => .bind_same fun method _ => .pure ?_
  simp [same]

theorem elementTarget_respects (hp : Raw.Hereditary p) : Rule.Respects elementTarget k p := by
  intro inner each ctx ctx' alike n hn
  refine agree_child each alike hp hn fun f g same => ?_
  refine (agree_arguments each alike hp (hp.slot hn 1)).bind fun fs gs args => .pure ?_
  exact Form.Like.pushAll (by simp [same]) args

section Targets

variable (hp : Raw.Hereditary p) {inner : Normalizer} (each : inner.Respects k p)
variable {ctx ctx' : Context} (alike : Context.Like k p ctx ctx')

include hp alike in
theorem agree_tokenTarget {n : Raw.Node} (hn : p n.toRaw) :
    Agree (Form.Like k) (tokenTarget ctx n) (tokenTarget ctx' n) := by
  refine .bind_same fun t found => ?_
  have tags : assignmentTag? ctx t.kind = assignmentTag? ctx' t.kind := by
    simp only [assignmentTag?, alike.inMethodBody]
  rw [tags]
  split
  · refine .pure (Form.Like.withLine (by simp) ?_)
    exact .some (like_tokenLine hp alike hn found)
  · exact .error _

include hp each alike

theorem agree_leafTarget {n : Raw.Node} (hn : p n.toRaw) :
    Agree (Form.Like k) (leafTarget inner ctx n) (leafTarget inner ctx' n) := by
  simp only [leafTarget]
  split
  · exact agree_tokenTarget hp alike hn
  · split
    · exact attributeTarget_respects hp inner each ctx ctx' alike n hn
    · split
      · exact elementTarget_respects hp inner each ctx ctx' alike n hn
      · split
        · refine (constantPath_respects hp _ inner each ctx ctx' alike n hn).bind ?_
          intro f g same
          exact .pure (by simp [same])
        · exact .error _

end Targets

mutual

theorem agree_target (hp : Raw.Hereditary p) {inner : Normalizer} (each : inner.Respects k p)
    {ctx ctx' : Context} (alike : Context.Like k p ctx ctx') {value value' : Option Form}
    (values : Option.Rel (Form.Like k) value value') (child : Raw) (hc : p child) :
    Agree (Form.Like k) (target inner ctx value child) (target inner ctx' value' child) := by
  cases child with
  | node tag children =>
    have leaf := (agree_leafTarget hp each alike (n := ⟨tag, children⟩) hc).map
      fun f g same => Form.Like.push? same values
    have inside := agree_targets hp each alike children (hp.child hc)
    unfold target
    split
    · cases children with
      | nil => exact .error _
      | cons first rest =>
        have taken := agree_target hp each alike values first (hp.child hc first (by simp))
        dsimp only
        split
        · exact .error _
        · split
          · exact .error _
          · exact taken
    · split
      · refine inside.bind fun fs gs same => .pure ?_
        simp [like_array same]
      · split
        · cases children with
          | nil => exact .ok (by simp)
          | cons first rest =>
            have taken := agree_target hp each alike .none first (hp.child hc first (by simp))
            dsimp only
            split
            · exact .ok (by simp)
            · split
              · exact .error _
              · refine taken.bind fun f g same => .pure ?_
                simp [same]
        · exact leaf
  | _ => exact .error _

theorem agree_targets (hp : Raw.Hereditary p) {inner : Normalizer} (each : inner.Respects k p)
    {ctx ctx' : Context} (alike : Context.Like k p ctx ctx') (children : List Raw)
    (hc : ∀ c ∈ children, p c) :
    Agree (List.Forall₂ (Form.Like k)) (targets inner ctx children)
      (targets inner ctx' children) := by
  cases children with
  | nil => exact .ok .nil
  | cons child rest =>
    have others := agree_targets hp each alike rest fun c member => hc c (by simp [member])
    have first := agree_target hp each alike .none child (hc child (by simp))
    unfold targets
    split
    · exact others
    · refine first.bind fun f g same => ?_
      refine others.bind fun fs gs more => .pure ?_
      exact .cons same more

end

section Assignments

variable (hp : Raw.Hereditary p) {inner : Normalizer} (each : inner.Respects k p)
variable {ctx ctx' : Context} (alike : Context.Like k p ctx ctx')
include hp each alike

theorem agree_assign {value value' : Option Form}
    (values : Option.Rel (Form.Like k) value value') {n : Raw.Node} (hn : p n.toRaw) :
    Agree (Form.Like k) (assign inner ctx value n) (assign inner ctx' value' n) :=
  agree_target hp each alike values n.toRaw hn

theorem agree_leftSide {n : Raw.Node} (hn : p n.toRaw) :
    Agree (List.Forall₂ (Form.Like k)) (leftSide inner ctx n) (leftSide inner ctx' n) := by
  simp only [leftSide]
  split
  · exact agree_targets hp each alike n.children (hp.child hn)
  · exact (agree_assign hp each alike .none hn).map fun f g same => .cons same .nil

theorem agree_loopVariable {n : Raw.Node} (hn : p n.toRaw) :
    Agree (Form.Like k) (loopVariable inner ctx n) (loopVariable inner ctx' n) := by
  simp only [loopVariable]
  split
  · refine (agree_leftSide hp each alike hn).bind fun fs gs same => .pure ?_
    simp [like_array same]
  · exact agree_assign hp each alike .none hn

end Assignments

/-! ### Assignments -/

theorem like_listValue {fs gs : List Form} (h : List.Forall₂ (Form.Like k) fs gs) :
    (listValue fs).Like k (listValue gs) := by
  have several := like_array h
  cases h with
  | nil => simp [listValue, several]
  | cons first others =>
    cases others with
    | nil =>
      simp only [listValue, first.is]
      split
      · simp [first]
      · simp [several]
    | cons second more => simp [listValue, several]

theorem like_multipleValue {fs gs : List Form} (h : List.Forall₂ (Form.Like k) fs gs) :
    (multipleValue fs).Like k (multipleValue gs) := by
  have several := like_array h
  cases h with
  | nil => exact several
  | cons first others =>
    cases others with
    | nil =>
      simp only [multipleValue, first.is]
      split
      · exact first
      · exact several
    | cons second more => exact several

theorem rightSide_respects (hp : Raw.Hereditary p) {ofList : List Form → Form}
    {ofValue : Form → Form}
    (lists : ∀ fs gs, List.Forall₂ (Form.Like k) fs gs → (ofList fs).Like k (ofList gs))
    (single : ∀ f g, f.Like k g → (ofValue f).Like k (ofValue g)) :
    Rule.Respects (rightSide ofList ofValue) k p := by
  intro inner each ctx ctx' alike n hn
  have slot := hp.slot hn 1
  simp only [rightSide]
  generalize n.slot 1 = child at slot
  cases child with
  | node tag children =>
    dsimp only
    split
    · exact (agree_arguments each alike hp slot).map lists
    · exact (each ctx ctx' alike ⟨tag, children⟩ slot).map single
  | _ => exact .error _

theorem assignRule_respects (hp : Raw.Hereditary p) : Rule.Respects assignRule k p := by
  intro inner each ctx ctx' alike n hn
  refine .bind_same fun left found => ?_
  refine (rightSide_respects hp (fun _ _ => like_listValue) (fun _ _ same => same)
    inner each ctx ctx' alike n hn).bind fun value value' same => ?_
  exact agree_assign hp each alike (.some same) (hp.nodeAt hn found)

theorem multipleAssignRule_respects (hp : Raw.Hereditary p) :
    Rule.Respects multipleAssignRule k p := by
  intro inner each ctx ctx' alike n hn
  refine .bind_same fun left found => ?_
  refine (agree_leftSide hp each alike (hp.nodeAt hn found)).bind fun fs gs targets => ?_
  refine (rightSide_respects hp (fun _ _ => like_multipleValue) ?_
    inner each ctx ctx' alike n hn).bind fun value value' same => .pure ?_
  · intro f g same
    simp [same]
  · simp [like_array targets, same]

/-! ### Operator assignments -/

theorem readTarget_respects (hp : Raw.Hereditary p) : Rule.Respects readTarget k p := by
  intro inner each ctx ctx' alike n hn
  simp only [readTarget]
  split
  · refine .bind_same fun m found => .bind_same fun t _ => ?_
    split
    · exact .pure (Form.Like.withLine (by simp) (alike.lineOf hp (hp.nodeAt hn found)))
    · exact .error _
  · split
    · exact constantPath_respects hp _ inner each ctx ctx' alike n hn
    · exact .error _

section Operations

variable (hp : Raw.Hereditary p) {inner : Normalizer} (each : inner.Respects k p)
variable {ctx ctx' : Context} (alike : Context.Like k p ctx ctx') (operator : String)
variable {value value' : Form} (values : value.Like k value')
include hp each alike values

theorem agree_elementOperation {n : Raw.Node} (hn : p n.toRaw) :
    Agree (Form.Like k) (elementOperation operator value inner ctx n)
      (elementOperation operator value' inner ctx' n) := by
  refine agree_child each alike hp hn fun f g same => ?_
  refine (agree_arguments each alike hp (hp.slot hn 1)).bind fun fs gs args => .pure ?_
  simp [same, values, Form.like_group "arglist" args]

theorem agree_attributeOperation {n : Raw.Node} (hn : p n.toRaw) :
    Agree (Form.Like k) (attributeOperation operator value inner ctx n)
      (attributeOperation operator value' inner ctx' n) := by
  refine agree_child each alike hp hn fun f g same => .bind_same fun method _ => .pure ?_
  simp [same, values]

theorem agree_variableOperation {n : Raw.Node} (hn : p n.toRaw) :
    Agree (Form.Like k) (variableOperation operator value inner ctx n)
      (variableOperation operator value' inner ctx' n) := by
  refine (readTarget_respects hp inner each ctx ctx' alike n hn).bind fun f g same => ?_
  split
  · refine (agree_assign hp each alike (.some values) hn).bind fun a b assigned => .pure ?_
    simp [same, assigned]
  · split
    · refine (agree_assign hp each alike (.some values) hn).bind fun a b assigned => .pure ?_
      simp [same, assigned]
    · refine agree_assign hp each alike (.some ?_) hn
      exact Form.Like.withLine (by simp [same, values]) same.line

end Operations

theorem operatorAssignRule_respects (hp : Raw.Hereditary p) :
    Rule.Respects operatorAssignRule k p := by
  intro inner each ctx ctx' alike n hn
  refine .bind_same fun left found => .bind_same fun operator _ => ?_
  have hl := hp.nodeAt hn found
  refine agree_child each alike hp hn fun value value' same => ?_
  split
  · exact agree_elementOperation hp each alike _ same hl
  · split
    · exact agree_attributeOperation hp each alike _ same hl
    · exact agree_variableOperation hp each alike _ same hl

end RubyNormalForm.Rules
