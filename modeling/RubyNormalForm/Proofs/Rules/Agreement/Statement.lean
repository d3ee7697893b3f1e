import RubyNormalForm.Proofs.Rules.Agreement.Assignment

/-!
# Agreement of statements, conditions and loops

Bodies with clauses hold further bodies, so their agreement is by induction on size. A
condition is taken apart by its tag and by whether it is over a node, which both runs see
alike, so both exchange the branches or neither does.
-/

namespace RubyNormalForm.Rules

variable {k : Likeness} {p : Raw → Prop} {fs gs : List Form}

/-! ### Bodies -/

theorem like_block (h : List.Forall₂ (Form.Like k) fs gs) : (block fs).Like k (block gs) := by
  refine (Form.like_group "block" h).withLine ?_
  cases h with
  | nil => exact .none
  | cons first others => exact first.line

theorem like_wrap (h : List.Forall₂ (Form.Like k) fs gs) :
    Option.Rel (Form.Like k) (wrap fs) (wrap gs) := by
  cases h with
  | nil => exact .none
  | cons first others =>
    cases others with
    | nil => exact .some first
    | cons second more => exact .some (like_block (.cons first (.cons second more)))

theorem like_wrapOrNil (h : List.Forall₂ (Form.Like k) fs gs) :
    (wrapOrNil fs).Like k (wrapOrNil gs) :=
  optionRel_getD (like_wrap h) (by simp)

theorem like_statementItems (h : List.Forall₂ (Form.Like k) fs gs) :
    List.Forall₂ (Item.Like k) (statementItems fs) (statementItems gs) := by
  have items := Form.like_map_toItem h
  cases h with
  | nil => simp [statementItems]
  | cons first others => exact items

section Bodies

variable (hp : Raw.Hereditary p) {inner : Normalizer} (each : inner.Respects k p)
variable {ctx ctx' : Context} (alike : Context.Like k p ctx ctx')

include each alike in
theorem agree_listed {children : List Raw} (hc : ∀ c ∈ children, p c) :
    Agree (List.Forall₂ (Form.Like k)) (listed inner ctx children)
      (listed inner ctx' children) := by
  induction children with
  | nil => exact .ok .nil
  | cons child rest ih =>
    have others := ih fun c member => hc c (by simp [member])
    cases child with
    | node tag inside =>
      simp only [listed]
      split
      · exact others
      · have first := each ctx ctx' alike ⟨tag, inside⟩ (hc (.node tag inside) (by simp))
        refine first.bind fun f g same => ?_
        exact others.bind fun fs gs more => .pure (.cons same more)
    | _ =>
      unfold listed
      dsimp only
      split
      · exact others
      · exact .error _

include hp each alike

theorem agree_statementsWith {body body' : Raw.Node → Result (List Form)}
    (bodies : ∀ n, p n.toRaw → Agree (List.Forall₂ (Form.Like k)) (body n) (body' n))
    {child : Raw} (hc : p child) :
    Agree (List.Forall₂ (Form.Like k)) (statementsWith inner ctx body child)
      (statementsWith inner ctx' body' child) := by
  cases child with
  | node tag children =>
    simp only [statementsWith]
    split
    · exact bodies ⟨tag, children⟩ hc
    · split
      · exact .ok .nil
      · split
        · exact agree_listed each alike (hp.child hc)
        · exact (each ctx ctx' alike ⟨tag, children⟩ hc).map fun f g same => .cons same .nil
  | _ =>
    unfold statementsWith
    dsimp only
    split
    · exact .ok .nil
    · exact .error _

theorem agree_rescueClause {statements statements' : Raw → Result (List Form)}
    (bodies : ∀ child, p child →
      Agree (List.Forall₂ (Form.Like k)) (statements child) (statements' child))
    {n : Raw.Node} (hn : p n.toRaw) :
    Agree (Form.Like k) (rescueClause inner ctx statements n)
      (rescueClause inner ctx' statements' n) := by
  refine .bind_same fun bound found => .bind_same fun next _ => ?_
  refine (agree_arguments each alike hp (hp.slot hn 0)).bind fun fs gs classes => ?_
  have ending : ∀ vs ws : List Form, List.Forall₂ (Form.Like k) vs ws →
      Agree (Form.Like k)
        (statements (n.slot 2) >>= fun inside => pure ((Form.of "resbody"
          ((array (fs ++ vs)).toItem :: statementItems inside)).withLine (ctx.lineOf n)))
        (statements' (n.slot 2) >>= fun inside => pure ((Form.of "resbody"
          ((array (gs ++ ws)).toItem :: statementItems inside)).withLine (ctx'.lineOf n))) := by
    intro vs ws bindings
    refine (bodies _ (hp.slot hn 2)).bind fun inside inside' same => .pure ?_
    refine Form.Like.withLine ?_ (alike.lineOf hp hn)
    simp [like_array (List.rel_append classes bindings), like_statementItems same]
  cases bound with
  | none => exact ending [] [] .nil
  | some v =>
    have caught : currentException.Like k currentException := by simp [currentException]
    refine Agree.bind ((agree_assign hp each alike (.some caught) (hp.nodeAt? hn found)).map
      fun f g same => .cons same .nil) ending

theorem agree_rescueClauses {statements statements' : Raw → Result (List Form)}
    (bodies : ∀ child, p child →
      Agree (List.Forall₂ (Form.Like k)) (statements child) (statements' child))
    {clauses : List Raw.Node} (hc : ∀ n ∈ clauses, p n.toRaw) :
    Agree (List.Forall₂ (Form.Like k)) (rescueClauses inner ctx statements clauses)
      (rescueClauses inner ctx' statements' clauses) := by
  induction clauses with
  | nil => exact .ok .nil
  | cons n rest ih =>
    refine (agree_rescueClause hp each alike bodies (hc n (by simp))).bind fun f g same => ?_
    refine (ih fun m member => hc m (by simp [member])).bind fun fs gs more => ?_
    exact .pure (.cons same more)

theorem agree_bodyStep {body body' : Raw.Node → Result (List Form)}
    (bodies : ∀ n, p n.toRaw → Agree (List.Forall₂ (Form.Like k)) (body n) (body' n))
    {n : Raw.Node} (hn : p n.toRaw) :
    Agree (List.Forall₂ (Form.Like k)) (bodyStep inner ctx body n)
      (bodyStep inner ctx' body' n) := by
  have inside : ∀ child, p child → Agree (List.Forall₂ (Form.Like k))
      (statementsWith inner ctx body child) (statementsWith inner ctx' body' child) :=
    fun child hc => agree_statementsWith hp each alike bodies hc
  refine (inside _ (hp.slot hn 0)).bind fun main main' mains => ?_
  refine .bind_same fun rescue? rescued => .bind_same fun ensure? ensured => ?_
  refine (inside _ (hp.insideElse (hp.slot hn 2))).bind fun other other' others => ?_
  have closing : ∀ clause : Raw.Node, p clause.toRaw → ∀ fs gs : List Form,
      List.Forall₂ (Form.Like k) fs gs → Agree (List.Forall₂ (Form.Like k))
        (statementsWith inner ctx body (insideEnsure clause) >>= fun final =>
          pure [(Form.group "ensure" ((wrap fs).toList ++ [wrapOrNil final])).raiseLines])
        (statementsWith inner ctx' body' (insideEnsure clause) >>= fun final =>
          pure [(Form.group "ensure" ((wrap gs).toList ++ [wrapOrNil final])).raiseLines]) := by
    intro clause hc fs gs same
    refine (inside _ (hp.insideEnsure hc)).bind
      fun final final' finals => .pure (.cons (Form.Like.raiseLines ?_) .nil)
    refine Form.like_group "ensure" ?_
    exact List.rel_append (optionRel_toList (like_wrap same)) (.cons (like_wrapOrNil finals) .nil)
  cases rescue? with
  | none =>
    have guarded := List.rel_append mains others
    cases ensure? with
    | none => exact .pure guarded
    | some clause => exact closing clause (hp.nodeAt? hn ensured) _ _ guarded
  | some first =>
    have hf := hp.nodeAt? hn rescued
    refine (agree_rescueClauses hp each alike inside fun m => hp.rescueChain hf).bind
      fun fs gs clauses => ?_
    have parts := List.rel_append (List.rel_append (optionRel_toList (like_wrap mains)) clauses)
      (optionRel_toList (like_wrap others))
    have guarded := List.Forall₂.cons (Form.like_group "rescue" parts).raiseLines .nil
    cases ensure? with
    | none => exact .pure guarded
    | some clause => exact closing clause (hp.nodeAt? hn ensured) _ _ guarded

theorem agree_bodyStatements {n : Raw.Node} (hn : p n.toRaw) :
    Agree (List.Forall₂ (Form.Like k)) (bodyStatements inner ctx n)
      (bodyStatements inner ctx' n) := by
  induction size : n.size using Nat.strongRecOn generalizing n with
  | ind s ih =>
    subst size
    rw [bodyStatements, bodyStatements]
    rw [Raw.Node.bySize_eq, Raw.Node.bySize_eq]
    refine agree_bodyStep hp each alike ?_ hn
    intro m hm
    by_cases smaller : m.size < n.size
    · simp only [smaller, if_true]
      exact ih m.size smaller hm rfl
    · simp only [smaller, if_false]
      exact .error _

theorem agree_statements {child : Raw} (hc : p child) :
    Agree (List.Forall₂ (Form.Like k)) (statements inner ctx child)
      (statements inner ctx' child) :=
  agree_statementsWith hp each alike (fun _ => agree_bodyStatements hp each alike) hc

theorem agree_body {child : Raw} (hc : p child) :
    Agree (Option.Rel (Form.Like k)) (body inner ctx child) (body inner ctx' child) :=
  (agree_statements hp each alike hc).map fun _ _ => like_wrap

theorem agree_elseBody {child : Raw} (hc : p child) :
    Agree (Option.Rel (Form.Like k)) (elseBody inner ctx child) (elseBody inner ctx' child) :=
  agree_body hp each alike (hp.insideElse hc)

end Bodies

theorem bodyRule_respects (hp : Raw.Hereditary p) : Rule.Respects bodyRule k p := by
  intro inner each ctx ctx' alike n hn
  exact (agree_statements hp each alike (hp.slot hn 0)).map fun _ _ => like_wrapOrNil

theorem sequenceRule_respects (hp : Raw.Hereditary p) : Rule.Respects sequenceRule k p := by
  intro inner each ctx ctx' alike n hn
  exact (agree_statements hp each alike hn).map fun _ _ => like_wrapOrNil

theorem fallbackRule_respects (hp : Raw.Hereditary p) : Rule.Respects fallbackRule k p := by
  intro inner each ctx ctx' alike n hn
  refine agree_child each alike hp hn fun f f' first => ?_
  refine agree_child each alike hp hn fun g g' second => .pure ?_
  have clause := Form.Like.withLine (k := k) (f := .of "resbody" [(array []).toItem, g.toItem])
    (g := .of "resbody" [(array []).toItem, g'.toItem]) (by simp [like_array, second]) first.line
  simp [first, clause]

/-! ### Conditions -/

theorem like_isRegexp {f g : Form} (h : f.Like k g) : isRegexp f = isRegexp g := by
  obtain ⟨tag, items, line, comments⟩ := f
  obtain ⟨tag', items', line', comments'⟩ := g
  obtain ⟨sameTag, inside, -, -⟩ := h
  obtain rfl : tag = tag' := sameTag
  cases inside with
  | nil => rfl
  | cons first others => cases first <;> rfl

/-- Two conditions with expressions that are alike, negated or not. -/
structure Condition.Like (k : Likeness) (c d : Condition) : Prop where
  expr : c.expr.Like k d.expr
  negated : c.negated = d.negated

/-- An expression that is not the negation of one item stands for itself, or for a match. -/
theorem ofForm_of_plain {f : Form} (plain : f.is "not" = true → f.items.length ≠ 1) :
    Condition.ofForm f =
      if isRegexp f then ⟨(Form.of "match" [f.toItem]).withLine f.line, false⟩ else ⟨f, false⟩ := by
  unfold Condition.ofForm
  split
  · rename_i isNot single
    exact absurd (by simp [single]) (plain isNot)
  · rename_i isNot single
    exact absurd (by simp [single]) (plain isNot)
  · rfl

/-- Both conditions are taken out of a negation, or neither is. -/
theorem like_ofForm {f g : Form} (h : f.Like k g) :
    (Condition.ofForm f).Like k (Condition.ofForm g) := by
  by_cases single : f.is "not" = true ∧ f.items.length = 1
  · obtain ⟨tag, items, line, comments⟩ := f
    obtain ⟨tag', items', line', comments'⟩ := g
    obtain ⟨sameTag, inside, lines, -⟩ := h
    obtain rfl : tag = "not" := eq_of_beq single.1
    obtain rfl : "not" = tag' := sameTag
    obtain ⟨item, rfl⟩ := List.length_eq_one_iff.1 single.2
    obtain ⟨item', rfl⟩ := List.length_eq_one_iff.1 (inside.length_eq ▸ single.2)
    cases inside with
    | cons first others =>
      cases first with
      | node inside' lines' =>
        refine ⟨Form.Like.withLine (f := ⟨_, _, _, _⟩) (g := ⟨_, _, _, _⟩) ?_ lines, rfl⟩
        exact ⟨rfl, inside', lines', rfl⟩
      | str same => exact ⟨Form.Like.withLine (by simp) lines, rfl⟩
      | scalar isScalar =>
        cases item with
        | node tag items line comments => cases isScalar
        | _ => exact ⟨Form.Like.withLine (by simp) lines, rfl⟩
  · have plain : f.is "not" = true → f.items.length ≠ 1 := fun isNot one => single ⟨isNot, one⟩
    rw [ofForm_of_plain plain, ofForm_of_plain (by rwa [← h.is, ← h.items.length_eq])]
    rw [like_isRegexp h]
    split
    · exact ⟨Form.Like.withLine (by simp [h]) h.line, rfl⟩
    · exact ⟨h, rfl⟩

theorem like_branch {c d : Condition} (conditions : c.Like k d) (swap : Bool)
    {yes yes' no no' : Option Form} (first : Option.Rel (Form.Like k) yes yes')
    (second : Option.Rel (Form.Like k) no no') :
    (branch c swap yes no).Like k (branch d swap yes' no') := by
  simp only [branch, conditions.negated]
  split <;> simp [conditions.expr, first, second]

theorem like_loopTag {c d : Condition} (conditions : c.Like k d) (isUntil : Bool) :
    loopTag isUntil c = loopTag isUntil d := by
  simp only [loopTag, conditions.negated]

section Conditions

variable (hp : Raw.Hereditary p) {inner : Normalizer} (each : inner.Respects k p)
variable {ctx ctx' : Context} (alike : Context.Like k p ctx ctx')
include hp each alike

theorem agree_condition (flipFlop : Bool) {n : Raw.Node} (hn : p n.toRaw) :
    Agree (Condition.Like k) (condition inner ctx flipFlop n)
      (condition inner ctx' flipFlop n) := by
  have hc := hp.conditionNode hn
  refine Agree.map ?_ fun _ _ => like_ofForm
  simp only [conditionForm]
  split
  · refine (agree_value? each alike (hp.slot hc 0)).bind fun f g first => ?_
    refine (agree_value? each alike (hp.slot hc 1)).bind fun f' g' last => .pure ?_
    simp [first, last]
  · exact each ctx ctx' alike _ hc

theorem agree_otherwise {child : Raw} (hc : p child) :
    Agree (Option.Rel (Form.Like k)) (otherwise inner ctx child) (otherwise inner ctx' child) := by
  have ending := agree_elseBody hp each alike hc
  cases child with
  | node tag children =>
    simp only [otherwise]
    split
    · exact (each ctx ctx' alike ⟨tag, children⟩ hc).map fun _ _ => .some
    · exact ending
  | _ => exact ending

end Conditions

theorem conditional_respects (hp : Raw.Hereditary p) (flipFlop swap : Bool) :
    Rule.Respects (conditional flipFlop swap) k p := by
  intro inner each ctx ctx' alike n hn
  refine .bind_same fun m found => ?_
  refine (agree_condition hp each alike _ (hp.nodeAt hn found)).bind fun c d conditions => ?_
  refine (agree_body hp each alike (hp.slot hn 1)).bind fun yes yes' first => ?_
  refine (agree_otherwise hp each alike (hp.slot hn 2)).bind fun no no' second => .pure ?_
  exact like_branch conditions swap first second

theorem modifier_respects (hp : Raw.Hereditary p) (swap : Bool) :
    Rule.Respects (modifier swap) k p := by
  intro inner each ctx ctx' alike n hn
  refine .bind_same fun m found => ?_
  refine (agree_condition hp each alike _ (hp.nodeAt hn found)).bind fun c d conditions => ?_
  refine (agree_value? each alike (hp.slot hn 1)).bind fun yes yes' first => .pure ?_
  exact like_branch conditions swap first .none

theorem ternary_respects (hp : Raw.Hereditary p) : Rule.Respects ternary k p := by
  intro inner each ctx ctx' alike n hn
  refine .bind_same fun m found => ?_
  refine (agree_condition hp each alike _ (hp.nodeAt hn found)).bind fun c d conditions => ?_
  refine (agree_value? each alike (hp.slot hn 1)).bind fun yes yes' first => ?_
  refine (agree_value? each alike (hp.slot hn 2)).bind fun no no' second => .pure ?_
  exact like_branch conditions false first second

/-! ### Loops and clauses -/

theorem loop_respects (hp : Raw.Hereditary p) (isUntil : Bool) :
    Rule.Respects (loop isUntil) k p := by
  intro inner each ctx ctx' alike n hn
  refine .bind_same fun m found => ?_
  refine (agree_condition hp each alike _ (hp.nodeAt hn found)).bind fun c d conditions => ?_
  refine (agree_body hp each alike (hp.slot hn 1)).bind fun f g inside => .pure ?_
  simp [like_loopTag conditions, conditions.expr, inside]

theorem postfixLoop_respects (hp : Raw.Hereditary p) (isUntil : Bool) :
    Rule.Respects (postfixLoop isUntil) k p := by
  intro inner each ctx ctx' alike n hn
  refine .bind_same fun m found => ?_
  refine (agree_condition hp each alike _ (hp.nodeAt hn found)).bind fun c d conditions => ?_
  refine .bind_same fun statement found' => ?_
  refine (each ctx ctx' alike _ (hp.nodeAt hn found')).bind fun f g inside => .pure ?_
  simp [like_loopTag conditions, conditions.expr, inside]

theorem forLoop_respects (hp : Raw.Hereditary p) : Rule.Respects forLoop k p := by
  intro inner each ctx ctx' alike n hn
  refine .bind_same fun m found => ?_
  refine (agree_loopVariable hp each alike (hp.nodeAt hn found)).bind fun t t' target => ?_
  refine agree_child each alike hp hn fun f g range => ?_
  refine (agree_body hp each alike (hp.slot hn 2)).bind fun b b' inside => .pure ?_
  exact Form.Like.push? (by simp [target, range]) inside

theorem whenClause_respects (hp : Raw.Hereditary p) : Rule.Respects whenClause k p := by
  intro inner each ctx ctx' alike n hn
  refine (agree_arguments each alike hp (hp.slot hn 0)).bind fun fs gs tests => ?_
  refine (agree_statements hp each alike (hp.slot hn 1)).bind fun b b' inside => ?_
  refine .bind_same fun next _ => .pure ?_
  refine Form.Like.withLine ?_ (alike.lineOf hp hn)
  simp [like_array tests, like_statementItems inside]

theorem agree_whenClauses (hp : Raw.Hereditary p) {inner : Normalizer}
    (each : inner.Respects k p) {ctx ctx' : Context} (alike : Context.Like k p ctx ctx')
    {clauses : List Raw.Node} (hc : ∀ n ∈ clauses, p n.toRaw) :
    Agree (List.Forall₂ (Form.Like k)) (whenClauses inner ctx clauses)
      (whenClauses inner ctx' clauses) := by
  induction clauses with
  | nil => exact .ok .nil
  | cons n rest ih =>
    have first := whenClause_respects hp inner each ctx ctx' alike n (hc n (by simp))
    refine first.bind fun f g same => ?_
    refine (ih fun m member => hc m (by simp [member])).bind fun fs gs more => ?_
    exact .pure (.cons same more)

theorem caseRule_respects (hp : Raw.Hereditary p) : Rule.Respects caseRule k p := by
  intro inner each ctx ctx' alike n hn
  refine (agree_value? each alike (hp.slot hn 0)).bind fun f g subject => ?_
  refine .bind_same fun first found => ?_
  have closed : ∀ {fs gs e e'}, List.Forall₂ (Form.Like k) fs gs →
      Option.Rel (Form.Like k) e e' →
      (((Form.of "case" [Form.itemOf f]).pushAll fs).push (Form.itemOf e)).Like k
        (((Form.of "case" [Form.itemOf g]).pushAll gs).push (Form.itemOf e')) :=
    fun tested ending => (Form.Like.pushAll (by simp [subject]) tested).push (by simp [ending])
  cases first with
  | none => exact .pure (closed .nil .none)
  | some first =>
    obtain ⟨hc, hl⟩ := hp.whenChain (hp.nodeAt? hn found)
    dsimp only
    refine (agree_whenClauses hp each alike hc).bind fun fs gs tested => ?_
    cases last : (whenChain first).2 with
    | none => exact .pure (closed tested .none)
    | some clause =>
      refine (agree_elseBody hp each alike (hl clause last)).bind fun e e' ending => .pure ?_
      exact closed tested ending

end RubyNormalForm.Rules
