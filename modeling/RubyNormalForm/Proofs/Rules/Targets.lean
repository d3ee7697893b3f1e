import RubyNormalForm.Proofs.Rules.OperatorAssignment
import RubyNormalForm.Proofs.Rules.Parts

/-!
# The two sides of a multiple assignment

What an assignment target becomes is said by a relation that has one rule for each kind of target:
a list of targets becomes the list of what its entries become, a splat holds what its target
becomes, and every other target is a node with nothing in it but what it inside at, followed by the
value if it is given one. The left side of a multiple assignment is such a list, to any depth. Its
right side is classified by what stands there in the source: a list or a single value.

Lines are left out on both sides of the relations.
-/

namespace RubyNormalForm

open Raw Rules

/-! ### Entries of lists -/

/-- The children that are present. -/
def Raw.present (children : List Raw) : List Raw :=
  children.filter fun child => !child.isAbsent

/-- The child is a node with the given normal form, lines apart. -/
def HasForm (ctx : Context) (child : Raw) (f : Form) : Prop :=
  ∃ n : Node, child = n.toRaw ∧ (normalizeNode ctx n).map Form.unlined = .ok f

/-- The entries of a list that are present, or the only thing that stands in its place. -/
def Raw.listEntries : Raw → List Raw
  | .node tag children => if tag = listTag then present children else [.node tag children]
  | other => present [other]

/-- The entries of an argument list, which may be in parentheses. -/
def Raw.argumentEntries (child : Raw) : List Raw :=
  (insideParens child).listEntries

theorem hasForm_of_normalizeNode {ctx : Context} {n : Node} {f : Form}
    (normal : normalizeNode ctx n = .ok f) : HasForm ctx n.toRaw f.unlined :=
  ⟨n, rfl, map_eq_ok.2 ⟨f, normal, rfl⟩⟩

theorem present_cons (child : Raw) (rest : List Raw) :
    present (child :: rest) = present [child] ++ present rest := by
  rw [present, present, present, ← List.filter_append]
  rfl

theorem present_of_isAbsent {child : Raw} (absent : child.isAbsent = true) :
    present [child] = [] := by
  simp [present, absent]

section Entries

variable {ctx : Context}

theorem hasForm_of_value? {child : Raw} {inside : Option Form}
    (found : value? normalizeNode ctx child = .ok inside) :
    List.Forall₂ (HasForm ctx) (present [child]) (inside.toList.map Form.unlined) := by
  cases child with
  | node tag children =>
    obtain ⟨f, normal, rfl⟩ := map_eq_ok.1 found
    exact .cons (hasForm_of_normalizeNode normal) .nil
  | _ =>
    simp only [value?] at found
    split at found
    · rename_i absent
      cases found
      rw [present_of_isAbsent absent]
      exact .nil
    · cases found

theorem hasForm_of_values {children : List Raw} {forms : List Form}
    (found : values normalizeNode ctx children = .ok forms) :
    List.Forall₂ (HasForm ctx) (present children) (forms.map Form.unlined) := by
  induction children generalizing forms with
  | nil =>
    cases found
    exact .nil
  | cons child rest ih =>
    obtain ⟨first, isFirst, found⟩ := bind_eq_ok.1 found
    obtain ⟨others, areOthers, made⟩ := bind_eq_ok.1 found
    cases made
    rw [present_cons, List.map_append]
    exact List.rel_append (hasForm_of_value? isFirst) (ih areOthers)

theorem hasForm_of_entries {child : Raw} {forms : List Form}
    (found : entries normalizeNode ctx child = .ok forms) :
    List.Forall₂ (HasForm ctx) child.listEntries (forms.map Form.unlined) := by
  cases child with
  | node tag children =>
    simp only [entries, beq_iff_eq] at found
    rw [listEntries]
    split at found
    · rename_i isList
      rw [if_pos isList]
      exact hasForm_of_values found
    · rename_i notList
      obtain ⟨f, normal, rfl⟩ := map_eq_ok.1 found
      rw [if_neg notList]
      exact .cons (hasForm_of_normalizeNode normal) .nil
  | _ =>
    simp only [entries] at found
    split at found
    · rename_i absent
      cases found
      simp only [listEntries, present_of_isAbsent absent]
      exact .nil
    · cases found

theorem hasForm_of_arguments {child : Raw} {forms : List Form}
    (found : arguments normalizeNode ctx child = .ok forms) :
    List.Forall₂ (HasForm ctx) child.argumentEntries (forms.map Form.unlined) :=
  hasForm_of_entries found

end Entries

/-! ### Targets -/

/-- The bare assignment to a target that holds no other target. -/
inductive LeafTarget (ctx : Context) (n : Node) : Form → Prop
  | token {t : Token} {tag : String} (isToken : token n = .ok t)
      (isTag : assignmentTag? ctx t.kind = some tag) : LeafTarget ctx n (.of tag [.sym t.text])
  | attribute {receiver : Form} {method : String} (isField : n.tag = "field")
      (hasReceiver : HasForm ctx (n.slot 0) receiver) (isName : name (n.slot 2) = .ok method) :
      LeafTarget ctx n (.of (if isSafeNavigation (n.slot 1) then "safe_attrasgn" else "attrasgn")
        [receiver.toItem, .sym (method ++ "=")])
  | element {receiver : Form} {args : List Form} (isField : n.tag = "aref_field")
      (hasReceiver : HasForm ctx (n.slot 0) receiver)
      (hasArguments : List.Forall₂ (HasForm ctx) (n.slot 1).argumentEntries args) :
      LeafTarget ctx n (.of "attrasgn" (receiver.toItem :: .sym "[]=" :: args.map Form.toItem))
  | path {scope : Form} {constant : String} (isField : n.tag = "const_path_field")
      (hasScope : HasForm ctx (n.slot 0) scope) (isName : name (n.slot 1) = .ok constant) :
      LeafTarget ctx n (.of "cdecl" [(Form.of "colon2" [scope.toItem, .sym constant]).toItem])
  | top {constant : String} (isField : n.tag = "top_const_field")
      (isName : name (n.slot 0) = .ok constant) :
      LeafTarget ctx n (.of "cdecl" [(Form.of "colon3" [.sym constant]).toItem])

/-- What a target becomes if it is given a value or none. A list and a splat take no value, and
neither do the targets in them. -/
inductive Mirrors (ctx : Context) : Option Form → Raw → Form → Prop
  | leaf {value : Option Form} {n : Node} {f : Form} (isLeaf : LeafTarget ctx n f) :
      Mirrors ctx value n.toRaw (f.push? value)
  | field {value : Option Form} {child : Raw} {rest : List Raw} {f : Form}
      (inside : Mirrors ctx value child f) : Mirrors ctx value (.node "var_field" (child :: rest)) f
  | list {value : Option Form} {children : List Raw} {forms : List Form}
      (each : List.Forall₂ (Mirrors ctx none) (present children) forms) :
      Mirrors ctx value (.node "mlhs" children)
        (.of "masgn" [(Form.of "array" (forms.map Form.toItem)).toItem])
  | splat {value : Option Form} {tag : String} {child : Raw} {rest : List Raw} {f : Form}
      (isRest : tag = "star" ∨ tag = "rest_param") (inside : Mirrors ctx none child f) :
      Mirrors ctx value (.node tag (child :: rest)) (.of "splat" [f.toItem])
  | anonymous {value : Option Form} {n : Node} (isRest : n.tag = "star" ∨ n.tag = "rest_param")
      (absent : (n.slot 0).isAbsent = true) : Mirrors ctx value n.toRaw (.of "splat" [])

section Leaves

variable {ctx : Context} {n : Node} {f : Form}

theorem hasForm_slot {m : Node} {i : Nat} (isNode : n.nodeAt i = .ok m)
    (normal : normalizeNode ctx m = .ok f) : HasForm ctx (n.slot i) f.unlined := by
  rw [slot_of_nodeAt isNode]
  exact hasForm_of_normalizeNode normal

theorem leafTarget_of_tokenTarget (found : tokenTarget ctx n = .ok f) :
    LeafTarget ctx n f.unlined := by
  obtain ⟨t, isToken, found⟩ := bind_eq_ok.1 found
  split at found
  · rename_i tag isTag
    cases found
    exact .token isToken isTag
  · cases found

theorem leafTarget_of_attributeTarget (isField : n.tag = "field")
    (found : attributeTarget normalizeNode ctx n = .ok f) : LeafTarget ctx n f.unlined := by
  obtain ⟨m, isNode, found⟩ := bind_eq_ok.1 found
  obtain ⟨receiver, normal, found⟩ := bind_eq_ok.1 found
  obtain ⟨method, isName, made⟩ := bind_eq_ok.1 found
  cases made
  exact .attribute isField (hasForm_slot isNode normal) isName

theorem leafTarget_of_elementTarget (isField : n.tag = "aref_field")
    (found : elementTarget normalizeNode ctx n = .ok f) : LeafTarget ctx n f.unlined := by
  obtain ⟨m, isNode, found⟩ := bind_eq_ok.1 found
  obtain ⟨receiver, normal, found⟩ := bind_eq_ok.1 found
  obtain ⟨args, areArguments, made⟩ := bind_eq_ok.1 found
  cases made
  rw [Form.unlined_pushAll]
  exact .element isField (hasForm_slot isNode normal) (hasForm_of_arguments areArguments)

theorem leafTarget_of_constantPath {path : Form} (isField : n.tag = "const_path_field")
    (found : constantPath false normalizeNode ctx n = .ok path) :
    LeafTarget ctx n (Form.of "cdecl" [path.toItem]).unlined := by
  obtain ⟨m, isNode, found⟩ := bind_eq_ok.1 found
  obtain ⟨scope, normal, found⟩ := bind_eq_ok.1 found
  obtain ⟨constant, isName, made⟩ := bind_eq_ok.1 found
  cases made
  exact .path isField (hasForm_slot isNode normal) isName

theorem leafTarget_of_topConstant {path : Form} (isField : n.tag = "top_const_field")
    (found : constantPath true normalizeNode ctx n = .ok path) :
    LeafTarget ctx n (Form.of "cdecl" [path.toItem]).unlined := by
  obtain ⟨constant, isName, made⟩ := bind_eq_ok.1 found
  cases made
  exact .top isField isName

theorem leafTarget_of_leafTarget (found : leafTarget normalizeNode ctx n = .ok f) :
    LeafTarget ctx n f.unlined := by
  rw [leafTarget] at found
  split at found
  · exact leafTarget_of_tokenTarget found
  split at found
  · rename_i isField
    exact leafTarget_of_attributeTarget (eq_of_beq isField) found
  split at found
  · rename_i isField
    exact leafTarget_of_elementTarget (eq_of_beq isField) found
  split at found
  · obtain ⟨path, isPath, made⟩ := bind_eq_ok.1 found
    cases made
    cases isTop : n.is "top_const_field" with
    | true =>
      rw [isTop] at isPath
      exact leafTarget_of_topConstant (eq_of_beq isTop) isPath
    | false =>
      rename_i isConstant
      rw [isTop] at isPath
      have isField : n.is "const_path_field" = true := by simpa [isTop] using isConstant
      exact leafTarget_of_constantPath (eq_of_beq isField) isPath
  · cases found

end Leaves

theorem unlined_push? (f : Form) (value : Option Form) :
    (f.push? value).unlined = f.unlined.push? (value.map Form.unlined) := by
  cases value with
  | none => rfl
  | some g =>
    simp [Form.push?, Form.push, Form.unlined, Item.unlinedAll, Item.unlined, Form.toItem]

theorem unlined_group (tag : String) (forms : List Form) :
    (Form.group tag forms).unlined = Form.of tag ((forms.map Form.unlined).map Form.toItem) := by
  simp only [Form.group, Form.unlined, Form.unlinedAll_toItem, Form.of]

theorem unlined_array (forms : List Form) :
    (array forms).unlined = Form.of "array" ((forms.map Form.unlined).map Form.toItem) :=
  unlined_group "array" forms

/-- A node above one other, without the lines in it. -/
theorem unlined_of_single (tag : String) (f : Form) :
    (Form.of tag [f.toItem]).unlined = Form.of tag [f.unlined.toItem] := by
  simp [Item.unlinedAll, Form.toItem_unlined]

theorem target_rest {tag : String} (isRest : tag = "star" ∨ tag = "rest_param")
    (inner : Normalizer) (ctx : Context) (value : Option Form) (children : List Raw) :
    target inner ctx value (.node tag children) =
      match children with
      | [] => .ok (.of "splat" [])
      | child :: _ =>
        if child.isAbsent then .ok (.of "splat" [])
        else if child.node?.isNone then .error (.malformed tag (.expected .nodeOrNil child))
        else do
          let inside ← target inner ctx none child
          return .of "splat" [inside.toItem] := by
  obtain rfl | rfl := isRest <;> cases children <;> rfl

-- The recursion is that of the targets: a list goes on in all its entries, a variable and a splat
-- in their first child.
mutual

theorem mirrors_of_target {ctx : Context} {value : Option Form} (child : Raw) {f : Form}
    (found : target normalizeNode ctx value child = .ok f) :
    Mirrors ctx (value.map Form.unlined) child f.unlined := by
  cases child with
  | node tag children =>
    by_cases isVariable : tag = "var_field"
    · subst isVariable
      cases children with
      | nil => cases found
      | cons first rest =>
        rw [target] at found
        simp only [beq_self_eq_true, if_true] at found
        split at found
        · cases found
        split at found
        · cases found
        · exact .field (mirrors_of_target first found)
    by_cases isList : tag = "mlhs"
    · subst isList
      rw [target_mlhs] at found
      obtain ⟨inside, areInside, made⟩ := bind_eq_ok.1 found
      cases made
      rw [unlined_of_single, unlined_array]
      exact .list (mirrors_of_targets children areInside)
    by_cases isRest : tag = "star" ∨ tag = "rest_param"
    · cases children with
      | nil =>
        rw [target_rest isRest] at found
        cases found
        exact .anonymous (n := ⟨tag, []⟩) isRest rfl
      | cons first rest =>
        rw [target_rest isRest] at found
        dsimp only at found
        split at found
        · rename_i absent
          cases found
          exact .anonymous (n := ⟨tag, first :: rest⟩) isRest absent
        split at found
        · cases found
        · obtain ⟨inside, isInside, made⟩ := bind_eq_ok.1 found
          cases made
          rw [unlined_of_single]
          exact .splat isRest (mirrors_of_target first isInside)
    · have notRest : isRestTag tag = false := by simpa [isRestTag] using isRest
      rw [target_leaf (beq_false_of_ne isVariable) (beq_false_of_ne isList) notRest] at found
      obtain ⟨leaf, isLeaf, rfl⟩ := map_eq_ok.1 found
      rw [assigned, unlined_push?]
      exact .leaf (leafTarget_of_leafTarget isLeaf)
  | _ => cases found

theorem mirrors_of_targets {ctx : Context} (children : List Raw) {forms : List Form}
    (found : targets normalizeNode ctx children = .ok forms) :
    List.Forall₂ (Mirrors ctx none) (present children) (forms.map Form.unlined) := by
  cases children with
  | nil =>
    cases found
    exact .nil
  | cons child rest =>
    rw [targets] at found
    split at found
    · rename_i absent
      rw [present_cons, present_of_isAbsent absent]
      exact mirrors_of_targets rest found
    · rename_i isPresent
      obtain ⟨first, isFirst, found⟩ := bind_eq_ok.1 found
      obtain ⟨others, areOthers, made⟩ := bind_eq_ok.1 found
      cases made
      have kept : present [child] = [child] := by simp [present, isPresent]
      rw [present_cons, kept]
      exact .cons (mirrors_of_target child isFirst) (mirrors_of_targets rest areOthers)

end

/-! ### Right sides -/

/-- The right side of a multiple assignment: the only entry of a list if that is a splat, the
array of the entries of every other list, and a single value as it is taken apart. -/
inductive RightSide (ctx : Context) : Raw → Form → Prop
  | splat {children : List Raw} {entry : Raw} {f : Form} (only : present children = [entry])
      (hasEntry : HasForm ctx entry f) (isSplat : f.tag = "splat") :
      RightSide ctx (.node listTag children) f
  | array {children : List Raw} {forms : List Form}
      (each : List.Forall₂ (HasForm ctx) (present children) forms)
      (noSplat : ∀ f, forms = [f] → f.tag ≠ "splat") :
      RightSide ctx (.node listTag children) (.of "array" (forms.map Form.toItem))
  | value {n : Node} {f : Form} (single : n.tag ≠ listTag) (hasValue : HasForm ctx n.toRaw f) :
      RightSide ctx n.toRaw (.of "to_ary" [f.toItem])

theorem not_single_of_list (children : List Raw) :
    ¬ ∃ n : Node, .node listTag children = n.toRaw ∧ n.tag ≠ listTag := by
  rintro ⟨n, isList, notList⟩
  exact notList (Raw.node.inj isList).1.symm

/-- Only a single value is converted. -/
theorem RightSide.tag_eq_iff {ctx : Context} {child : Raw} {f : Form}
    (isRight : RightSide ctx child f) :
    f.tag = "to_ary" ↔ ∃ n : Node, child = n.toRaw ∧ n.tag ≠ listTag := by
  cases isRight with
  | splat only hasEntry isSplat => simp [isSplat, not_single_of_list]
  | array each noSplat => simp [Form.of, not_single_of_list]
  | value single hasValue => exact ⟨fun _ => ⟨_, rfl, single⟩, fun _ => rfl⟩

theorem multipleValue_of_no_splat {forms : List Form}
    (noSplat : ∀ f, forms = [f] → f.tag ≠ "splat") : multipleValue forms = array forms := by
  match forms with
  | [] => rfl
  | [f] =>
    rw [multipleValue, if_neg]
    rw [Form.is, beq_iff_eq]
    exact noSplat f rfl
  | _ :: _ :: _ => rfl

theorem rightSide_of_multipleValue {ctx : Context} {children : List Raw} {forms : List Form}
    (each : List.Forall₂ (HasForm ctx) (present children) (forms.map Form.unlined)) :
    RightSide ctx (.node listTag children) (multipleValue forms).unlined := by
  by_cases splat : ∃ f, forms = [f] ∧ f.tag = "splat"
  · obtain ⟨f, rfl, isSplat⟩ := splat
    obtain ⟨entry, rest, hasEntry, noOther, only⟩ := List.forall₂_cons_right_iff.1 each
    cases noOther
    have isTag : f.is "splat" = true := beq_iff_eq.2 isSplat
    rw [multipleValue, if_pos isTag]
    exact .splat only hasEntry isSplat
  · have noSplat : ∀ f, forms = [f] → f.tag ≠ "splat" :=
      fun f isOnly isSplat => splat ⟨f, isOnly, isSplat⟩
    rw [multipleValue_of_no_splat noSplat, unlined_array]
    refine .array each ?_
    intro f isOnly
    obtain ⟨g, rfl, rfl⟩ := List.map_eq_singleton_iff.1 isOnly
    exact noSplat g rfl

theorem rightSide_of_rightSide {ctx : Context} {n : Node} {f : Form}
    (found : rightSide multipleValue (fun value => .of "to_ary" [value.toItem]) normalizeNode ctx
      n = .ok f) : RightSide ctx (n.slot 1) f.unlined := by
  rw [rightSide] at found
  split at found
  · rename_i tag children isNode
    rw [isNode]
    split at found
    · rename_i isList
      obtain rfl := eq_of_beq isList
      obtain ⟨forms, areEntries, rfl⟩ := map_eq_ok.1 found
      have each := hasForm_of_arguments areEntries
      rw [argumentEntries, insideParens] at each
      exact rightSide_of_multipleValue each
    · rename_i notList
      obtain ⟨value, normal, rfl⟩ := map_eq_ok.1 found
      rw [unlined_of_single]
      exact .value (by simpa using notList) (hasForm_of_normalizeNode normal)
  · cases found

/-! ### Multiple assignments -/

theorem leftSide_congr {k : Nat} {inner inner' : Normalizer} (agree : AgreeBelow k inner inner')
    (ctx : Context) {n : Node} (le : n.size ≤ k) :
    leftSide inner ctx n = leftSide inner' ctx n := by
  have all := targets_congr agree ctx n.children fun child member =>
    Nat.le_of_lt (Nat.lt_of_lt_of_le (size_lt_of_mem n.tag member) (n.size_toRaw.trans_le le))
  simp only [leftSide, all, assign_congr agree ctx none le]

theorem multipleAssignRule_localAt (ctx : Context) (n : Node) :
    Rule.LocalAt multipleAssignRule ctx n := by
  intro inner inner' agree
  refine bind_congr_ok rfl fun left isLeft => ?_
  rw [leftSide_congr agree ctx (Nat.le_of_lt (Node.size_of_nodeAt isLeft)),
    rightSide_congr agree ctx _ _ (Nat.le_refl _)]

/-- A multiple assignment to a list mirrors its left side and classifies its right side: there is
one target for each entry that is present, in order and to any depth, and no target has a value.
The right side is converted just when it is not a list. -/
theorem normalizeNode_mirrors_targets {ctx : Context} {n left : Node} {f : Form}
    (isAssignment : n.tag = "massign") (isLeft : n.child? 0 = some left)
    (isList : left.tag = listTag ∨ left.tag = "mlhs") (normal : normalizeNode ctx n = .ok f) :
    ∃ targets right,
      f.unlined = .of "masgn" [(Form.of "array" (targets.map Form.toItem)).toItem, right.toItem] ∧
      List.Forall₂ (Mirrors ctx none) (present left.children) targets ∧
      RightSide ctx (n.slot 1) right ∧
      (right.tag = "to_ary" ↔ ∃ value : Node, n.slot 1 = value.toRaw ∧ value.tag ≠ listTag) := by
  have found : rule? n.tag = some multipleAssignRule := by
    rw [isAssignment]
    rfl
  obtain ⟨g, made, same⟩ := exists_of_localAt found (multipleAssignRule_localAt ctx n) normal
  rw [multipleAssignRule, Node.nodeAt_of_child? isLeft, ok_bind] at made
  obtain ⟨forms, areTargets, made⟩ := bind_eq_ok.1 made
  obtain ⟨right, isRight, made⟩ := bind_eq_ok.1 made
  cases made
  rw [leftSide, if_pos (by simpa [isTargetList, Node.isList, Node.is] using isList)] at areTargets
  have isRight := rightSide_of_rightSide isRight
  refine ⟨forms.map Form.unlined, right.unlined, ?_, mirrors_of_targets _ areTargets, isRight,
    isRight.tag_eq_iff⟩
  simp only [same, Form.unlined_of, Item.unlinedAll, Form.toItem_unlined, unlined_array]

/-- `a, (@b, *c), *, d.e = *f`, with an entry on the left that is absent. -/
def nestedAssignment : Node :=
  ⟨"massign",
    [.node listTag
      [.node "var_field" [.node "@ident" [.str "a", .pos 1 0]],
       .node "mlhs"
        [.node "@ivar" [.str "@b", .pos 1 4],
         .node "star" [.node "var_field" [.node "@ident" [.str "c", .pos 1 9]]]],
       .nil,
       .node "rest_param" [.nil],
       .node "field" [bareCall "d", .sym ".", .node "@ident" [.str "e", .pos 1 17]]],
     .node listTag [.node "star" [bareCall "f"]]]⟩

theorem nestedAssignment_mirrors_targets :
    ∃ f, normalizeNode exampleContext nestedAssignment = .ok f ∧
      ∃ (targets : List Form) (right : Form),
        f.unlined =
          .of "masgn" [(Form.of "array" (targets.map Form.toItem)).toItem, right.toItem] ∧
        targets.length = 4 ∧ right.tag ≠ "to_ary" := by
  have normal : ∃ f, normalizeNode exampleContext nestedAssignment = .ok f :=
    ⟨_, by with_unfolding_all rfl⟩
  obtain ⟨f, normal⟩ := normal
  obtain ⟨targets, right, isForm, each, isRight, converts⟩ :=
    normalizeNode_mirrors_targets rfl rfl (.inl rfl) normal
  refine ⟨f, normal, targets, right, isForm, each.length_eq.symm, ?_⟩
  rw [Ne, converts]
  exact not_single_of_list _

end RubyNormalForm
