import RubyNormalForm.Proofs.Rules.Composition.Assignment

/-!
# What bodies, conditions and loops compose

A body with clauses is where rescue clauses stand. Its statements, its `else` and its `ensure`
are expressions, and so are the classes and the statements of each clause; the variable of a
clause is a target.
-/

namespace RubyNormalForm.Rules

open Raw

variable {known : Site → Node → Prop} {ctx : Context} {P : Form → Prop}

/-! ### Statements as a body -/

section Bodies

variable (law : Law known ctx P)
include law

theorem all_block {statements : List Form} (several : 2 ≤ statements.length)
    (inside : ∀ f ∈ statements, f.All P) : (Form.group "block" statements).All P := by
  have unplaced : "block" ∉ placedTags := by decide
  exact law.all_fresh rfl unplaced (Form.conforms_block several) (Form.all_map_toItem.2 inside)

theorem all_wrap {statements : List Form} (inside : ∀ f ∈ statements, f.All P) :
    ∀ f ∈ wrap statements, f.All P := by
  match statements with
  | [] => simp [wrap]
  | [statement] => simpa [wrap] using inside
  | first :: second :: rest =>
    rintro f ⟨⟩
    exact law.withLine (all_block law (by simp) inside) _

theorem all_wrapOrNil {statements : List Form} (inside : ∀ f ∈ statements, f.All P) :
    (wrapOrNil statements).All P := by
  rw [wrapOrNil]
  cases wrapped : wrap statements with
  | none => exact law.all_bare (by decide)
  | some f => exact all_wrap law inside f wrapped

omit law in
theorem all_statementItems {statements : List Form} (inside : ∀ f ∈ statements, f.All P) :
    ∀ x ∈ statementItems statements, x.All P := by
  rw [statementItems]
  split
  · simp
  · exact Form.all_map_toItem.2 inside

/-- A clause of a `case` or of a body with clauses. -/
theorem all_clause {tag : String} (isClause : tag = "when" ∨ tag = "resbody") {tests : List Form}
    (areTests : ∀ f ∈ tests, f.All P) {statements : List Form}
    (inside : ∀ f ∈ statements, f.All P) :
    (Form.of tag ((array tests).toItem :: statementItems statements)).All P := by
  have unplaced : tag ∉ placedTags := by
    obtain rfl | rfl := isClause <;> decide
  refine law.all_fresh rfl unplaced (Form.conforms_clause isClause tests statements) ?_
  refine List.forall_mem_cons.2 ⟨?_, all_statementItems inside⟩
  exact law.all_array.2 areTests

end Bodies

/-! ### Bodies with clauses -/

section Clauses

variable (closed : Closed known) {b : Bool} {n : Node}
include closed

/-- What stands below a body with clauses, the rescue clauses apart. -/
theorem reads_bodySlot (h : known (.expression b) n) (isBody : n.tag = "bodystmt") {i : Nat}
    (notRescue : i ≠ 1) : Reads known b (n.slot i) := by
  intro m found
  have below := closed h found
  simpa [Site.below, Site.expression, isBody, Role.below, bodyScope?, notRescue] using below

theorem rescue_of_bodySlot (h : known (.expression b) n) (isBody : n.tag = "bodystmt") {m : Node}
    (found : (n.slot 1).node? = some m) : known (.rescue b) m := by
  have below := closed h found
  simpa [Site.below, Site.expression, Site.rescue, isBody, Role.below, bodyScope?] using below

theorem below_rescue {m : Node} {i : Nat} (h : known (.rescue b) n)
    (found : (n.slot i).node? = some m) : known ⟨b, Role.below .rescue n.tag i, none⟩ m := by
  have below := closed h found
  simpa [Site.below, Site.rescue] using below

theorem rescueChain_known (h : known (.rescue b) n) : ∀ m ∈ rescueChain n, known (.rescue b) m := by
  intro m member
  fun_induction rescueChain n with
  | case1 n ih =>
    obtain rfl | member := List.mem_cons.1 member
    · exact h
    · split at member
      · rename_i next found
        exact ih next found (below_rescue closed h found) member
      · cases member

end Clauses

section Statements

variable (law : Law known ctx P) {inner : Normalizer} {b : Bool}
variable (each : Upholds known ctx P inner b)
include each

theorem all_listed {children : List Raw} (reads : ∀ c ∈ children, Reads known b c) :
    Ensures (listed inner (ctx.within b) children) (fun forms => ∀ f ∈ forms, f.All P) := by
  induction children with
  | nil => simp [listed]
  | cons child rest ih =>
    rw [List.forall_mem_cons] at reads
    have others := ih reads.2
    rw [listed.eq_def]
    dsimp only
    split
    · split
      · exact others
      · simp only [ensures_bind, ensures_pure]
        refine (each _ (reads_node.1 reads.1)).mono fun form isForm => ?_
        refine others.mono fun forms areForms => ?_
        exact List.forall_mem_cons.2 ⟨isForm, areForms⟩
    · split
      · exact others
      · exact ensures_error _

/-- The bodies with clauses that are expressions have the property everywhere. -/
def BodiesUphold (known : Site → Node → Prop) (P : Form → Prop) (b : Bool)
    (body : Node → Result (List Form)) : Prop :=
  ∀ n, known (.expression b) n → n.tag = "bodystmt" →
    Ensures (body n) (fun forms => ∀ f ∈ forms, f.All P)

theorem all_statementsWith (closed : Closed known) {body : Node → Result (List Form)}
    (bodies : BodiesUphold known P b body) {child : Raw} (reads : Reads known b child) :
    Ensures (statementsWith inner (ctx.within b) body child)
      (fun forms => ∀ f ∈ forms, f.All P) := by
  rw [statementsWith.eq_def]
  split
  · have h := reads_node.1 reads
    dsimp only
    split
    · rename_i isBody
      exact bodies _ h (eq_of_beq isBody)
    split
    · simp
    split
    · rename_i isList
      refine all_listed each (closed.opens rfl h ?_).children
      simp only [Node.isStatements, Node.isList, Node.is, Bool.or_eq_true, beq_iff_eq] at isList
      obtain isList | isList := isList <;> simp only [isList] <;> decide
    · rw [ensures_map]
      exact (each _ h).mono fun f isForm => by simpa using isForm
  · split <;> simp

include law

theorem all_rescueClause {statements : Raw → Result (List Form)}
    (inside : ∀ child, Reads known b child →
      Ensures (statements child) (fun forms => ∀ f ∈ forms, f.All P))
    {n : Node} (h : known (.rescue b) n) :
    Ensures (rescueClause inner (ctx.within b) statements n) (Form.All P) := by
  have classes : Reads known b (n.slot 0) := fun m found => below_rescue law.closed h found
  have content : Reads known b (n.slot 2) := fun m found => below_rescue law.closed h found
  simp only [rescueClause, ensures_bind]
  refine (ensures_nodeAt? fun m => below_rescue law.closed h).mono fun bound isBound => ?_
  apply Ensures.of_forall
  intro _
  refine (each.arguments law.closed classes).mono fun classes areClasses => ?_
  have clause {binding : List Form} (isBinding : ∀ f ∈ binding, f.All P) :
      Ensures (statements (n.slot 2)) fun body =>
        ((Form.of "resbody" ((array (classes ++ binding)).toItem :: statementItems body)).withLine
          ((ctx.within b).lineOf n)).All P := by
    refine (inside _ content).mono fun body isBody => ?_
    refine law.withLine (all_clause law (.inr rfl) ?_ isBody) _
    simpa [or_imp, forall_and] using ⟨areClasses, isBinding⟩
  cases bound with
  | none =>
    simp only [ensures_bind, ensures_ok, ensures_pure]
    exact clause (by simp)
  | some v =>
    have exception : ∀ g ∈ some currentException, g.All P := by
      simp (disch := decide) [currentException, law.all_of]
    simp only [ensures_bind, ensures_map, ensures_pure]
    refine (all_assign law each exception (isBound v rfl)).mono fun f isForm => ?_
    exact clause (by simpa using isForm)

theorem all_rescueClauses {statements : Raw → Result (List Form)}
    (inside : ∀ child, Reads known b child →
      Ensures (statements child) (fun forms => ∀ f ∈ forms, f.All P))
    {clauses : List Node} (h : ∀ n ∈ clauses, known (.rescue b) n) :
    Ensures (rescueClauses inner (ctx.within b) statements clauses)
      (fun forms => ∀ f ∈ forms, f.All P) := by
  induction clauses with
  | nil => simp [rescueClauses]
  | cons n rest ih =>
    rw [List.forall_mem_cons] at h
    simp only [rescueClauses, ensures_bind, ensures_pure]
    refine (all_rescueClause law each inside h.1).mono fun form isForm => ?_
    refine (ih h.2).mono fun forms areForms => ?_
    exact List.forall_mem_cons.2 ⟨isForm, areForms⟩

omit each in
/-- The statements that an `ensure` clause guards are wrapped in it together with its own. -/
theorem all_guarded {statements : Raw → Result (List Form)}
    (inside : ∀ child, Reads known b child →
      Ensures (statements child) (fun forms => ∀ f ∈ forms, f.All P))
    {ensure? : Option Node} (isEnsure : ∀ clause ∈ ensure?, known (.expression b) clause)
    {guarded : List Form} (isGuarded : ∀ f ∈ guarded, f.All P) :
    Ensures (match ensure? with
      | some clause => do
        let final ← statements (insideEnsure clause)
        pure [(Form.group "ensure" ((wrap guarded).toList ++ [wrapOrNil final])).raiseLines]
      | none => pure guarded) (fun forms => ∀ f ∈ forms, f.All P) := by
  cases ensure? with
  | none => simpa using isGuarded
  | some clause =>
    simp only [ensures_bind, ensures_pure]
    refine (inside _ (law.closed.insideEnsure (isEnsure clause rfl))).mono fun final isFinal => ?_
    rw [List.forall_mem_singleton]
    refine Form.All.raiseLines law.lineFree ((law.all_group (by decide)).2 ?_)
    simpa [or_imp, forall_and] using ⟨all_wrap law isGuarded, all_wrapOrNil law isFinal⟩

theorem all_bodyStep {body : Node → Result (List Form)} (bodies : BodiesUphold known P b body) :
    BodiesUphold known P b (bodyStep inner (ctx.within b) body) := by
  intro n h isBody
  have inside (child : Raw) (reads : Reads known b child) :=
    all_statementsWith each law.closed bodies reads
  have slot {i : Nat} (notRescue : i ≠ 1) := reads_bodySlot law.closed h isBody notRescue
  simp only [bodyStep, ensures_bind]
  refine (inside _ (slot (i := 0) (by decide))).mono fun main isMain => ?_
  refine (ensures_nodeAt? fun m => rescue_of_bodySlot law.closed h isBody).mono
    fun rescue? isRescue => ?_
  refine (ensures_nodeAt? (slot (i := 3) (by decide))).mono fun ensure? isEnsure => ?_
  have elseReads := law.closed.insideElse (slot (i := 2) (by decide))
  refine (inside _ elseReads).mono fun others isOther => ?_
  cases rescue? with
  | none =>
    exact all_guarded law inside isEnsure (by simpa [or_imp, forall_and] using ⟨isMain, isOther⟩)
  | some first =>
    simp only [ensures_bind, ensures_pure]
    have chain := rescueChain_known law.closed (isRescue first rfl)
    refine (all_rescueClauses law each inside chain).mono fun clauses areClauses => ?_
    apply all_guarded law inside isEnsure
    rw [List.forall_mem_singleton]
    refine Form.All.raiseLines law.lineFree ((law.all_group (by decide)).2 ?_)
    simpa [or_imp, forall_and, and_assoc] using
      ⟨all_wrap law isMain, areClauses, all_wrap law isOther⟩

theorem all_bodyStatements : BodiesUphold known P b (bodyStatements inner (ctx.within b)) := by
  intro n h isBody
  induction size : n.size using Nat.strongRecOn generalizing n with
  | ind s ih =>
    subst size
    rw [bodyStatements, Node.bySize_eq]
    refine all_bodyStep law each ?_ n h isBody
    intro m known isBody
    by_cases smaller : m.size < n.size
    · simp only [smaller, if_true]
      exact ih m.size smaller m known isBody rfl
    · simp only [smaller, if_false]
      exact ensures_error _

theorem all_statements {child : Raw} (reads : Reads known b child) :
    Ensures (statements inner (ctx.within b) child) (fun forms => ∀ f ∈ forms, f.All P) :=
  all_statementsWith each law.closed (all_bodyStatements law each) reads

theorem all_body {child : Raw} (reads : Reads known b child) :
    Ensures (body inner (ctx.within b) child) (fun o => ∀ f ∈ o, f.All P) := by
  rw [body, ensures_map]
  exact (all_statements law each reads).mono fun forms inside => all_wrap law inside

theorem all_elseBody {child : Raw} (reads : Reads known b child) :
    Ensures (elseBody inner (ctx.within b) child) (fun o => ∀ f ∈ o, f.All P) :=
  all_body law each (law.closed.insideElse reads)

theorem all_sequenceRule {n : Node} (h : known (.expression b) n) :
    Ensures (sequenceRule inner (ctx.within b) n) (Form.All P) := by
  rw [sequenceRule, ensures_map]
  exact (all_statements law each (reads_toRaw.2 h)).mono fun forms inside =>
    all_wrapOrNil law inside

end Statements

section Composing

variable (law : Law known ctx P)
include law

theorem bodyRule_composes : Composes known ctx P bodyRule := by
  intro inner b each n opens
  rw [bodyRule, ensures_map]
  exact (all_statements law each (opens 0)).mono fun forms inside => all_wrapOrNil law inside

theorem fallbackRule_composes : Composes known ctx P fallbackRule := by
  intro inner b each n opens
  simp only [fallbackRule, ensures_bind, ensures_pure]
  refine (each.nodeAt (opens 0)).mono fun left inside => ?_
  refine inside.mono fun expr isExpr => ?_
  refine (each.nodeAt (opens 1)).mono fun right inside => ?_
  refine inside.mono fun fallback isFallback => ?_
  have statements : ∀ f ∈ [fallback], f.All P := by simpa using isFallback
  have noClass : ∀ f ∈ ([] : List Form), f.All P := by simp
  have clause := law.withLine (all_clause law (.inr rfl) noClass statements) expr.line
  refine (law.all_of (by decide)).2 ?_
  simp only [List.forall_mem_cons, Form.all_toItem]
  exact ⟨isExpr, clause, by simp⟩

end Composing

/-! ### Conditions -/

section Conditions

variable (law : Law known ctx P)
include law

/-- Taking a negation off and making a match of a regular expression keep the property. -/
theorem all_ofForm {f : Form} (h : f.All P) : (Condition.ofForm f).expr.All P := by
  rw [Condition.ofForm.eq_def]
  split
  · rename_i tag items line comments isNot only
    refine law.withLine ?_ f.line
    have inside := h.items
    rw [only, List.forall_mem_singleton] at inside
    exact inside
  · exact law.withLine (law.all_bare (by decide)) f.line
  · split
    · exact law.withLine ((law.all_of (by decide)).2 (by simpa using h)) f.line
    · exact h

theorem all_branch {c : Condition} (isCondition : c.expr.All P) (swap : Bool) {yes no : Option Form}
    (isYes : ∀ f ∈ yes, f.All P) (isNo : ∀ f ∈ no, f.All P) : (branch c swap yes no).All P := by
  have shaped {first second : Option Form} (isFirst : ∀ f ∈ first, f.All P)
      (isSecond : ∀ f ∈ second, f.All P) :
      (Form.of "if" [c.expr.toItem, Form.itemOf first, Form.itemOf second]).All P := by
    have unplaced : "if" ∉ placedTags := by decide
    refine law.all_fresh rfl unplaced (Form.conforms_conditional c.expr first second) ?_
    simpa [Form.of] using ⟨isCondition, isFirst, isSecond⟩
  rw [branch]
  split
  · exact shaped isNo isYes
  · exact shaped isYes isNo

/-- A loop with its condition, its body and when the condition is tested. -/
theorem all_loop (isUntil : Bool) {c : Condition} (isCondition : c.expr.All P)
    {inside : Option Form} (isBody : ∀ f ∈ inside, f.All P) (first : Bool) :
    (Form.of (loopTag isUntil c) [c.expr.toItem, Form.itemOf inside, .bool first]).All P := by
  have unplaced : loopTag isUntil c ∉ placedTags := by
    rw [loopTag]
    split <;> decide
  refine law.all_fresh rfl unplaced (Form.conforms_loop isUntil c inside first) ?_
  simpa [Form.of] using ⟨isCondition, isBody⟩

variable {inner : Normalizer} {b : Bool} (each : Upholds known ctx P inner b)
include each

theorem all_condition (flipFlop : Bool) {n : Node} (h : known (.expression b) n) :
    Ensures (condition inner (ctx.within b) flipFlop n) (fun c => c.expr.All P) := by
  have read := law.closed.conditionNode h
  rw [condition, ensures_map]
  refine Ensures.mono ?_ fun f => all_ofForm law
  rw [conditionForm]
  split
  · rename_i isRange
    have opens : Opens known b (conditionNode n) := by
      refine law.closed.opens rfl read ?_
      simp only [Node.isRange, Node.is, Bool.and_eq_true, Bool.or_eq_true, beq_iff_eq] at isRange
      obtain ⟨-, isTag | isTag⟩ := isRange <;> rw [isTag] <;> decide
    simp only [ensures_bind, ensures_pure]
    refine (each.value? (opens 0)).mono fun first isFirst => ?_
    refine (each.value? (opens 1)).mono fun last isLast => ?_
    split <;> simpa (disch := decide) [law.all_of] using ⟨isFirst, isLast⟩
  · exact each _ read

/-- The condition that is the first child of a node. -/
theorem all_conditionAt (flipFlop : Bool) {n : Node} (opens : Opens known b n) :
    Ensures (n.nodeAt 0) (fun m =>
      Ensures (condition inner (ctx.within b) flipFlop m) (fun c => c.expr.All P)) :=
  ensures_nodeAt fun m found => all_condition law each flipFlop (opens 0 m found)

theorem all_otherwise {child : Raw} (reads : Reads known b child) :
    Ensures (otherwise inner (ctx.within b) child) (fun o => ∀ f ∈ o, f.All P) := by
  rw [otherwise.eq_def]
  split
  · split
    · rw [ensures_map]
      exact (each _ (reads_node.1 reads)).mono fun f isForm => by simpa using isForm
    · exact all_elseBody law each reads
  · exact all_elseBody law each reads

end Conditions

section Branches

variable (law : Law known ctx P)
include law

theorem conditional_composes (flipFlop swap : Bool) :
    Composes known ctx P (conditional flipFlop swap) := by
  intro inner b each n opens
  simp only [conditional, ensures_bind, ensures_pure]
  refine (all_conditionAt law each flipFlop opens).mono fun m inside => ?_
  refine inside.mono fun c isCondition => ?_
  refine (all_body law each (opens 1)).mono fun yes isYes => ?_
  refine (all_otherwise law each (opens 2)).mono fun no isNo => ?_
  exact all_branch law isCondition swap isYes isNo

theorem modifier_composes (swap : Bool) : Composes known ctx P (modifier swap) := by
  intro inner b each n opens
  simp only [modifier, ensures_bind, ensures_pure]
  refine (all_conditionAt law each true opens).mono fun m inside => ?_
  refine inside.mono fun c isCondition => ?_
  refine (each.value? (opens 1)).mono fun statement isStatement => ?_
  exact all_branch law isCondition swap isStatement (by simp)

theorem ternary_composes : Composes known ctx P ternary := by
  intro inner b each n opens
  simp only [ternary, ensures_bind, ensures_pure]
  refine (all_conditionAt law each false opens).mono fun m inside => ?_
  refine inside.mono fun c isCondition => ?_
  refine (each.value? (opens 1)).mono fun yes isYes => ?_
  refine (each.value? (opens 2)).mono fun no isNo => ?_
  exact all_branch law isCondition false isYes isNo

theorem loop_composes (isUntil : Bool) : Composes known ctx P (loop isUntil) := by
  intro inner b each n opens
  simp only [loop, ensures_bind, ensures_pure]
  refine (all_conditionAt law each true opens).mono fun m inside => ?_
  refine inside.mono fun c isCondition => ?_
  refine (all_body law each (opens 1)).mono fun inside isBody => ?_
  exact all_loop law isUntil isCondition isBody true

theorem postfixLoop_composes (isUntil : Bool) : Composes known ctx P (postfixLoop isUntil) := by
  intro inner b each n opens
  simp only [postfixLoop, ensures_bind, ensures_pure]
  refine (all_conditionAt law each true opens).mono fun m inside => ?_
  refine inside.mono fun c isCondition => ?_
  refine (each.nodeAt (opens 1)).mono fun statement inside => ?_
  refine inside.mono fun form isForm => ?_
  have isBody : ∀ f ∈ some form, f.All P := by simpa using isForm
  exact all_loop law isUntil isCondition isBody _

theorem all_forLoop {inner : Normalizer} {b : Bool} (each : Upholds known ctx P inner b) {n : Node}
    (assigns : Assigns known b n) : Ensures (forLoop inner (ctx.within b) n) (Form.All P) := by
  simp only [forLoop, ensures_bind, ensures_pure]
  refine (ensures_nodeAt assigns.left).mono fun left isLeft => ?_
  refine (all_loopVariable law each isLeft).mono fun target isTarget => ?_
  refine (each.nodeAt (assigns.others 0)).mono fun m inside => ?_
  refine inside.mono fun range isRange => ?_
  refine (all_body law each (assigns.others 1)).mono fun inside isBody => ?_
  refine (law.all_push? (by decide)).2 ⟨?_, isBody⟩
  simpa using ⟨isRange, isTarget⟩

theorem all_whenClauses {inner : Normalizer} {b : Bool} (each : Upholds known ctx P inner b)
    {clauses : List Node} (opens : ∀ n ∈ clauses, Opens known b n) :
    Ensures (whenClauses inner (ctx.within b) clauses)
      (fun forms => ∀ f ∈ forms, f.tag = "when" ∧ f.All P) := by
  induction clauses with
  | nil => simp [whenClauses]
  | cons n rest ih =>
    rw [List.forall_mem_cons] at opens
    simp only [whenClauses, whenClause, ensures_bind, ensures_pure]
    refine (each.arguments law.closed (opens.1 0)).mono fun tests areTests => ?_
    refine (all_statements law each (opens.1 1)).mono fun inside isBody => ?_
    apply Ensures.of_forall
    intro _
    refine (ih opens.2).mono fun forms areForms => ?_
    have clause := all_clause law (.inl rfl) areTests isBody
    exact List.forall_mem_cons.2 ⟨⟨rfl, law.withLine clause _⟩, areForms⟩

/-- A `case` with its subject, its clauses and what is left otherwise. -/
theorem all_case {subject : Option Form} (isSubject : ∀ f ∈ subject, f.All P) {clauses : List Form}
    (areClauses : ∀ f ∈ clauses, f.tag = "when" ∧ f.All P) {last : Option Form}
    (isLast : ∀ f ∈ last, f.All P) :
    (((Form.of "case" [Form.itemOf subject]).pushAll clauses).push (Form.itemOf last)).All P := by
  have conforms := Form.conforms_case subject (fun f member => (areClauses f member).1) last
  have unplaced : "case" ∉ placedTags := by decide
  refine law.all_fresh rfl unplaced conforms ?_
  intro x member
  simp only [Form.of, Form.pushAll, Form.push, List.mem_append, List.mem_cons, List.not_mem_nil,
    or_false, List.mem_map] at member
  obtain (rfl | ⟨f, inClauses, rfl⟩) | rfl := member
  · exact Form.all_itemOf.2 isSubject
  · exact (areClauses f inClauses).2
  · exact Form.all_itemOf.2 isLast

theorem caseRule_composes : Composes known ctx P caseRule := by
  intro inner b each n opens
  simp only [caseRule, ensures_bind]
  refine (each.value? (opens 0)).mono fun subject isSubject => ?_
  refine (ensures_nodeAt? (opens 1)).mono fun first? isFirst => ?_
  have nothing : ∀ f ∈ (none : Option Form), f.All P := by simp
  cases first? with
  | none =>
    have noClause : ∀ f ∈ ([] : List Form), f.tag = "when" ∧ f.All P := by simp
    simp only [whenClauses, ensures_bind, ensures_ok, ensures_pure]
    exact all_case law isSubject noClause nothing
  | some first =>
    obtain ⟨clauses, last⟩ := law.closed.whenChain (isFirst first rfl)
    refine (all_whenClauses law each clauses).mono fun forms areClauses => ?_
    cases chain : (whenChain first).2 with
    | none =>
      simp only [ensures_bind, ensures_ok, ensures_pure]
      exact all_case law isSubject areClauses nothing
    | some clause =>
      have read := last clause chain
      simp only [ensures_bind, ensures_pure]
      refine (all_elseBody law each (reads_toRaw.2 read)).mono fun last isLast => ?_
      exact all_case law isSubject areClauses isLast

end Branches

end RubyNormalForm.Rules
