import RubyNormalForm.Proofs.Program.Lines
import RubyNormalForm.Proofs.Rules.Assigned

/-!
# What bodies keep

The statements of a body are normalised one by one, and bodies, clauses, branches and loops
wrap their normal forms without losing an assignment in them. The body of a definition is read
in the scope of the definition, and every other body in the scope around it.
-/

namespace RubyNormalForm

open Raw Rules

/-! ### Parts of a body -/

namespace Raw

/-- The node is a statement of the first, which stands in the place of a body without clauses. -/
inductive Statement : Raw → Node → Prop
  | single {n : Node} : n.tag ≠ "bodystmt" → n.tag ≠ "void_stmt" → n.isStatements = false →
      Statement n.toRaw n
  | listed {n m : Node} : n.isStatements = true → m.toRaw ∈ n.children → m.tag ≠ "void_stmt" →
      Statement n.toRaw m

/-- The second is the first, which stands in the place of a body, or stands in it as the body
before its clauses or that of one of them. -/
inductive BodyPart : Raw → Raw → Prop
  | whole (r : Raw) : BodyPart r r
  | main {n : Node} {r : Raw} : n.tag = "bodystmt" → BodyPart (n.slot 0) r → BodyPart n.toRaw r
  | otherwise {n : Node} {r : Raw} : n.tag = "bodystmt" → BodyPart (insideElse (n.slot 2)) r →
      BodyPart n.toRaw r
  | rescued {n first clause : Node} {r : Raw} : n.tag = "bodystmt" → n.child? 1 = some first →
      clause ∈ rescueChain first → BodyPart (clause.slot 2) r → BodyPart n.toRaw r
  | final {n clause : Node} {r : Raw} : n.tag = "bodystmt" → n.child? 3 = some clause →
      BodyPart (insideEnsure clause) r → BodyPart n.toRaw r

end Raw

section Statements

variable {inner : Normalizer} {ctx : Context}

theorem exists_of_statement {r : Raw} {m : Node} (isStatement : Statement r m) :
    Ensures (statements inner ctx r) fun forms => ∃ f ∈ forms, inner ctx m = .ok f := by
  cases isStatement with
  | single notBody notVoid notList =>
    rw [statements, Node.toRaw, statementsWith]
    simp only [Node.is, notBody, notVoid, notList, beq_iff_eq, if_false, Bool.false_eq_true,
      ensures_map]
    intro f isForm
    exact ⟨f, List.mem_singleton_self f, isForm⟩
  | listed isList isStatement present =>
    intro forms found
    rw [statements_of_isStatements isList] at found
    exact exists_mem_of_listed found isStatement present

theorem mem_statementItems {g : Form} {forms : List Form} (member : g ∈ forms) :
    g.toItem ∈ statementItems forms := by
  rw [statementItems, if_neg (by simpa using List.ne_nil_of_mem member)]
  exact List.mem_map_of_mem member

/-- The statements of a rescue clause are kept in it. -/
theorem keptIn_rescueClause (statements : Raw → Result (List Form)) (n : Node) :
    Ensures (rescueClause inner ctx statements n) fun f =>
      ∃ forms, statements (n.slot 2) = .ok forms ∧ ∀ g ∈ forms, g.KeptIn f := by
  have inside (binding classes : List Form) : Ensures (statements (n.slot 2)) fun body =>
      ∃ forms, statements (n.slot 2) = .ok forms ∧ ∀ g ∈ forms, g.KeptIn
        ((Form.of "resbody" ((array (classes ++ binding)).toItem :: statementItems body)).withLine
          (ctx.lineOf n)) := by
    intro body isBody
    refine ⟨body, isBody, fun g member => ?_⟩
    refine .trans (.of_mem ?_) (Form.keptIn_withLine _ _)
    exact List.mem_cons_of_mem _ (mem_statementItems member)
  simp only [rescueClause, ensures_bind]
  refine .of_forall fun bound => .of_forall fun _ => .of_forall fun classes => ?_
  cases bound with
  | none =>
    simp only [ensures_bind, ensures_ok, ensures_pure]
    exact inside [] classes
  | some v =>
    simp only [ensures_bind, ensures_map, ensures_pure]
    exact .of_forall fun f => inside [f] classes

/-- Bodies that are read only up to some size are read in full when they are read at all. -/
theorem statements_of_smaller {size : Nat} {r : Raw} {forms : List Form}
    (found : statementsWith inner ctx (fun m => if m.size < size then bodyStatements inner ctx m
      else .error (.unsupported m.tag none)) r = .ok forms) :
    statements inner ctx r = .ok forms := by
  cases r with
  | node tag children =>
    rw [statements]
    rw [statementsWith] at found ⊢
    split at found
    · rename_i isBody
      rw [if_pos isBody]
      split at found
      · exact found
      · cases found
    · rename_i notBody
      rw [if_neg notBody]
      exact found
  | _ => exact found

/-- The statements of a part of a body are kept among those of the whole. -/
theorem kept_of_bodyPart {r part : Raw} (isPart : BodyPart r part) :
    Ensures (statements inner ctx r) fun forms => ∃ others, statements inner ctx part = .ok others ∧
      ∀ f ∈ others, f.KeptAmong forms := by
  induction isPart with
  | whole r =>
    intro forms found
    exact ⟨forms, found, fun f member => .of_mem member⟩
  | main isBody _ ih =>
    intro forms found
    obtain ⟨main, isMain, kept⟩ := (bodyParts_of_statements isBody found).main
    obtain ⟨others, areOthers, inside⟩ := ih main (statements_of_smaller isMain)
    exact ⟨others, areOthers, fun f member => (inside f member).trans kept⟩
  | otherwise isBody _ ih =>
    intro forms found
    obtain ⟨last, isLast, kept⟩ := (bodyParts_of_statements isBody found).otherwise
    obtain ⟨others, areOthers, inside⟩ := ih last (statements_of_smaller isLast)
    exact ⟨others, areOthers, fun f member => (inside f member).trans kept⟩
  | rescued isBody isFirst isClause _ ih =>
    intro forms found
    obtain ⟨clauses, areClauses, kept⟩ := (bodyParts_of_statements isBody found).rescued _ isFirst
    obtain ⟨f, member, isResult⟩ := exists_of_rescueClauses areClauses isClause
    obtain ⟨handler, isHandler, keptIn⟩ := keptIn_rescueClause _ _ f isResult
    obtain ⟨others, areOthers, inside⟩ := ih handler (statements_of_smaller isHandler)
    refine ⟨others, areOthers, fun g isStatement => (inside g isStatement).trans ?_⟩
    intro h inHandler
    exact (kept f member).of_keptIn (keptIn h inHandler)
  | final isBody isClause _ ih =>
    intro forms found
    obtain ⟨final, isFinal, kept⟩ := (bodyParts_of_statements isBody found).final _ isClause
    obtain ⟨others, areOthers, inside⟩ := ih final (statements_of_smaller isFinal)
    exact ⟨others, areOthers, fun f member => (inside f member).trans kept⟩

end Statements

/-! ### Bodies of nodes -/

/-- The places of bodies that are normalised in the surroundings of the node around them. -/
def bodyPlaces : List (String × Nat) :=
  [("program", 0), ("begin", 0), ("BEGIN", 0), ("END", 0), ("lambda", 1), ("if", 1), ("unless", 1),
    ("elsif", 1), ("while", 1), ("until", 1), ("for", 2)]

/-- The tags of conditionals that may have further branches. -/
def conditionalTags : List String :=
  ["if", "unless", "elsif"]

/-- The node holds the second as a body, which is normalised in the surroundings before it. -/
inductive HoldsBody (ctx : Context) (n : Node) : Context → Raw → Prop
  | definition {i : Nat} {b : Bool} : bodyScope? n.tag i = some b →
      HoldsBody ctx n (ctx.within b) (n.slot i)
  | sequence : n.isStatements = true ∨ n.tag = "bodystmt" → HoldsBody ctx n ctx n.toRaw
  | plain {i : Nat} : (n.tag, i) ∈ bodyPlaces → HoldsBody ctx n ctx (n.slot i)
  | parentheses : n.tag = "paren" → (∀ m, n.child? 0 = some m → m.tag ≠ "params") →
      HoldsBody ctx n ctx (n.slot 0)
  | block {m : Node} : n.tag = "method_add_block" → n.child? 1 = some m →
      HoldsBody ctx n ctx (m.slot 1)
  | otherwise : n.tag ∈ conditionalTags → (∀ m, n.child? 2 = some m → m.tag ≠ "elsif") →
      HoldsBody ctx n ctx (insideElse (n.slot 2))
  | clause {first clause : Node} : n.tag = "case" → n.child? 1 = some first →
      clause ∈ (whenChain first).1 → HoldsBody ctx n ctx (clause.slot 1)
  | last {first last : Node} : n.tag = "case" → n.child? 1 = some first →
      (whenChain first).2 = some last → HoldsBody ctx n ctx (insideElse last.toRaw)

section Bodies

variable {inner : Normalizer} {ctx c : Context} {n : Node} {r : Raw}

/-- The statements of a body are kept in a normal form. -/
def KeepsBody (inner : Normalizer) (c : Context) (r : Raw) (f : Form) : Prop :=
  ∃ forms, statements inner c r = .ok forms ∧ ∀ g ∈ forms, g.KeptIn f

theorem KeepsBody.trans {f g : Form} (keeps : KeepsBody inner c r f) (kept : f.KeptIn g) :
    KeepsBody inner c r g := by
  obtain ⟨forms, found, inside⟩ := keeps
  exact ⟨forms, found, fun h member => (inside h member).trans kept⟩

theorem keepsBody_definition (tag : String) (header : List Item) {forms : List Form}
    (found : statements inner c r = .ok forms) :
    KeepsBody inner c r (definition tag header forms) := by
  refine ⟨forms, found, fun g member => .of_mem ?_⟩
  exact List.mem_append_right _ (List.mem_map_of_mem member)

theorem keepsBody_methodBody (tag : String) (header : List Item) :
    Ensures (methodBody inner ctx r) fun inside =>
      KeepsBody inner (ctx.within true) r (definition tag header inside) := by
  simp only [methodBody, ensures_bind, ensures_pure]
  intro forms found
  split
  · rename_i isEmpty
    obtain rfl : forms = [] := by simpa using isEmpty
    exact ⟨[], found, by simp⟩
  · exact keepsBody_definition tag header found

theorem keepsBody_scopeBody (tag : String) (header : List Item) :
    Ensures (scopeBody inner ctx r) fun inside =>
      KeepsBody inner (ctx.within false) r (definition tag header inside) :=
  fun _ found => keepsBody_definition tag header found

theorem keepsBody_wrapOrNil :
    Ensures ((statements inner c r).map wrapOrNil) (KeepsBody inner c r) := by
  rw [ensures_map]
  intro forms found
  exact ⟨forms, found, fun g member => (Form.KeptAmong.of_mem member).wrapOrNil⟩

/-- A node that has the body among its items keeps the statements of the body. -/
theorem keepsBody_body (make : Option Form → Form)
    (keeps : ∀ inside, inside.toItem ∈ (make (some inside)).items) :
    Ensures (body inner c r) fun inside => KeepsBody inner c r (make inside) := by
  rw [body, ensures_map]
  intro forms found
  refine ⟨forms, found, fun g member => ?_⟩
  obtain ⟨h, isBody, kept⟩ := (Form.KeptAmong.of_mem member).wrap
  rw [Option.mem_toList.1 isBody]
  exact kept.trans (.of_mem (keeps h))

theorem keepsBody_iteration (call : Form) (parameters : Item) :
    Ensures (body inner c r) fun inside =>
      KeepsBody inner c r (iteration call parameters inside) :=
  keepsBody_body _ fun inside => by simp [iteration, Form.push?, Form.push, Form.of]

theorem keepsBody_clause {header : Item} (line : Option Nat) :
    Ensures (statements inner c r) fun inside =>
      KeepsBody inner c r
        ((Form.of "when" (header :: statementItems inside)).withLine line) := by
  intro forms found
  refine ⟨forms, found, fun g member => ?_⟩
  refine .trans (.of_mem ?_) (Form.keptIn_withLine _ _)
  exact List.mem_cons_of_mem _ (mem_statementItems member)

theorem branch_yes (c : Condition) (swap : Bool) (inside : Form) (no : Option Form) :
    inside.toItem ∈ (branch c swap (some inside) no).items := by
  unfold branch
  split <;> simp [Form.of, Form.itemOf]

theorem branch_no (c : Condition) (swap : Bool) (yes : Option Form) (inside : Form) :
    inside.toItem ∈ (branch c swap yes (some inside)).items := by
  unfold branch
  split <;> simp [Form.of, Form.itemOf]

theorem branch_expr (c : Condition) (swap : Bool) (yes no : Option Form) :
    c.expr.toItem ∈ (branch c swap yes no).items := by
  unfold branch
  split <;> simp [Form.of]

/-- A definition keeps its body, which is normalised in its own scope. -/
theorem keepsBody_definitionRule {i : Nat} {b : Bool} (scope : bodyScope? n.tag i = some b)
    {rule : Rule} (found : rule? n.tag = some rule) :
    Ensures (rule inner ctx n) (KeepsBody inner (ctx.within b) (n.slot i)) := by
  rw [bodyScope?.eq_def] at scope
  split at scope
  case h_6 => cases scope
  all_goals
    rename_i isTag
    rw [isTag] at found
    obtain rfl := Option.some.inj found
    obtain rfl := Option.some.inj scope
  · simp only [methodRule, ensures_bind, ensures_pure]
    exact .of_forall fun method => .of_forall fun args => keepsBody_methodBody _ _
  · simp only [singletonMethodRule, ensures_bind, ensures_pure]
    refine .of_forall fun m => .of_forall fun receiver => .of_forall fun method => ?_
    exact .of_forall fun args => keepsBody_methodBody _ _
  · simp only [classRule, ensures_bind, ensures_pure]
    refine .of_forall fun m => .of_forall fun path => .of_forall fun superclass => ?_
    exact keepsBody_scopeBody _ _
  · simp only [moduleRule, ensures_bind, ensures_pure]
    exact .of_forall fun m => .of_forall fun path => keepsBody_scopeBody _ _
  · simp only [singletonClassRule, ensures_bind, ensures_pure]
    exact .of_forall fun m => .of_forall fun subject => keepsBody_scopeBody _ _

theorem keepsBody_conditional (flipFlop swap : Bool) :
    Ensures (conditional flipFlop swap inner ctx n) (KeepsBody inner ctx (n.slot 1)) := by
  simp only [conditional, ensures_bind, ensures_pure]
  refine .of_forall fun m => .of_forall fun c => ?_
  intro yes isYes
  refine .of_forall fun no => ?_
  exact keepsBody_body (branch c swap · no) (fun inside => branch_yes c swap inside no) yes isYes

theorem keepsBody_otherwise (flipFlop swap : Bool)
    (isElse : ∀ m, n.child? 2 = some m → m.tag ≠ "elsif") :
    Ensures (conditional flipFlop swap inner ctx n)
      (KeepsBody inner ctx (insideElse (n.slot 2))) := by
  have same : Rules.otherwise inner ctx (n.slot 2) = elseBody inner ctx (n.slot 2) := by
    cases slot : n.slot 2 with
    | node tag children =>
      have notElsif : tag ≠ "elsif" := isElse ⟨tag, children⟩ (by rw [Node.child?, slot]; rfl)
      simp [Rules.otherwise, notElsif]
    | _ => rfl
  simp only [conditional, same, ensures_bind, ensures_pure]
  refine .of_forall fun m => .of_forall fun c => .of_forall fun yes => ?_
  exact keepsBody_body _ fun inside => branch_no c swap yes inside

theorem keepsBody_loop (isUntil : Bool) :
    Ensures (loop isUntil inner ctx n) (KeepsBody inner ctx (n.slot 1)) := by
  simp only [loop, ensures_bind, ensures_pure]
  refine .of_forall fun m => .of_forall fun c => ?_
  exact keepsBody_body _ fun inside => by simp [Form.of, Form.itemOf]

theorem keepsBody_parentheses (notParameters : ∀ m, n.child? 0 = some m → m.tag ≠ "params") :
    Ensures (parenthesesRule inner ctx n) (KeepsBody inner ctx (n.slot 0)) := by
  have same : parenthesesRule inner ctx n = bodyRule inner ctx n := by
    rw [parenthesesRule]
    split
    · rename_i tag children slot
      have notTag : tag ≠ "params" := notParameters ⟨tag, children⟩ (by rw [Node.child?, slot]; rfl)
      rw [if_neg (by simpa using notTag)]
    · rfl
  rw [same]
  exact keepsBody_wrapOrNil

theorem keepsBody_hook (tag : String) :
    Ensures (hookRule tag inner ctx n) (KeepsBody inner ctx (n.slot 0)) := by
  simp only [hookRule, ensures_bind, ensures_pure]
  exact keepsBody_iteration _ _

theorem exists_of_whenClauses {clauses : List Node} {forms : List Form}
    (found : whenClauses inner ctx clauses = .ok forms) {clause : Node}
    (isClause : clause ∈ clauses) : ∃ f ∈ forms, whenClause inner ctx clause = .ok f :=
  exists_of_each (fun _ _ => rfl) found isClause

theorem keepsBody_whenClause {clause : Node} :
    Ensures (whenClause inner ctx clause) (KeepsBody inner ctx (clause.slot 1)) := by
  simp only [whenClause, ensures_bind, ensures_pure]
  refine .of_forall fun tests => ?_
  exact (keepsBody_clause _).mono fun inside keeps => .of_forall fun _ => keeps

/-- A `case` keeps the bodies of its clauses and what is left otherwise. -/
theorem keepsBody_case {first : Node} (isFirst : n.child? 1 = some first) :
    Ensures (caseRule inner ctx n) fun f =>
      (∀ clause ∈ (whenChain first).1, KeepsBody inner ctx (clause.slot 1) f) ∧
        ∀ last, (whenChain first).2 = some last →
          KeepsBody inner ctx (insideElse last.toRaw) f := by
  have clauses_kept {clauses : List Form}
      (areClauses : whenClauses inner ctx (whenChain first).1 = .ok clauses) (header last : Item)
      {clause : Node} (isClause : clause ∈ (whenChain first).1) :
      KeepsBody inner ctx (clause.slot 1)
        (((Form.of "case" [header]).pushAll clauses).push last) := by
    obtain ⟨g, member, isResult⟩ := exists_of_whenClauses areClauses isClause
    refine (keepsBody_whenClause g isResult).trans (.of_mem ?_)
    simp only [Form.push, Form.pushAll, List.mem_append]
    exact .inl (.inr (List.mem_map_of_mem member))
  simp only [caseRule, Node.nodeAt?_of_child? isFirst, ok_bind, ensures_bind]
  refine .of_forall fun subject => ?_
  intro clauses areClauses
  cases (whenChain first).2 with
  | none =>
    refine (ensures_pure _).2 ⟨fun clause isClause => clauses_kept areClauses _ _ isClause, ?_⟩
    intro last isLast
    cases isLast
  | some last =>
    simp only [ensures_bind, ensures_pure]
    intro otherwise isOtherwise
    refine ⟨fun clause isClause => clauses_kept areClauses _ _ isClause, ?_⟩
    rintro _ ⟨⟩
    refine keepsBody_body
      (fun inside => ((Form.of "case" [_]).pushAll clauses).push (Form.itemOf inside)) ?_ _
      isOtherwise
    intro inside
    simp [Form.push, Form.itemOf]

/-- A node keeps the body that it holds. -/
theorem keepsBody_rule (holds : HoldsBody ctx n c r) {rule : Rule}
    (found : rule? n.tag = some rule) :
    Ensures (rule inner ctx n) (KeepsBody inner c r) := by
  cases holds with
  | definition scope => exact keepsBody_definitionRule scope found
  | sequence isBody =>
    have isSequence : rule? n.tag = some sequenceRule := by
      simp only [Node.isStatements, Node.isList, Node.is, Bool.or_eq_true, beq_iff_eq] at isBody
      obtain (isTag | isTag) | isTag := isBody <;> rw [isTag] <;> rfl
    obtain rfl := Option.some.inj (found.symm.trans isSequence)
    exact keepsBody_wrapOrNil
  | plain isPlace =>
    simp only [bodyPlaces, List.mem_cons, Prod.mk.injEq, List.not_mem_nil, or_false] at isPlace
    obtain ⟨isTag, rfl⟩ | ⟨isTag, rfl⟩ | ⟨isTag, rfl⟩ | ⟨isTag, rfl⟩ | ⟨isTag, rfl⟩ | ⟨isTag, rfl⟩ |
      ⟨isTag, rfl⟩ | ⟨isTag, rfl⟩ | ⟨isTag, rfl⟩ | ⟨isTag, rfl⟩ | ⟨isTag, rfl⟩ := isPlace
    · rw [isTag] at found
      cases found
    all_goals
      rw [isTag] at found
      obtain rfl := Option.some.inj found
    · exact keepsBody_wrapOrNil
    · exact keepsBody_hook "preexe"
    · exact keepsBody_hook "postexe"
    · simp only [lambdaRule, ensures_bind, ensures_pure]
      exact .of_forall fun parameters => keepsBody_iteration _ parameters
    · exact keepsBody_conditional true false
    · exact keepsBody_conditional true true
    · exact keepsBody_conditional false false
    · exact keepsBody_loop false
    · exact keepsBody_loop true
    · simp only [forLoop, ensures_bind, ensures_pure]
      refine .of_forall fun m => .of_forall fun target => .of_forall fun m' => ?_
      refine .of_forall fun range => keepsBody_body _ fun inside => ?_
      simp [Form.of, Form.push?, Form.push]
  | parentheses isTag notParameters =>
    rw [isTag] at found
    obtain rfl := Option.some.inj found
    exact keepsBody_parentheses notParameters
  | block isTag isChild =>
    rw [isTag] at found
    obtain rfl := Option.some.inj found
    simp only [blockCallRule, Node.nodeAt_of_child? isChild, ok_bind, ensures_bind, ensures_pure]
    refine .of_forall fun m => .of_forall fun call => .of_forall fun parameters => ?_
    exact keepsBody_iteration call parameters
  | otherwise isTag isElse =>
    simp only [conditionalTags, List.mem_cons, List.not_mem_nil, or_false] at isTag
    obtain isTag | isTag | isTag := isTag
    all_goals
      rw [isTag] at found
      obtain rfl := Option.some.inj found
      exact keepsBody_otherwise _ _ isElse
  | clause isTag isFirst isClause =>
    rw [isTag] at found
    obtain rfl := Option.some.inj found
    exact (keepsBody_case isFirst).mono fun f keeps => keeps.1 _ isClause
  | last isTag isFirst isLast =>
    rw [isTag] at found
    obtain rfl := Option.some.inj found
    exact (keepsBody_case isFirst).mono fun f keeps => keeps.2 _ isLast

end Bodies

end RubyNormalForm
