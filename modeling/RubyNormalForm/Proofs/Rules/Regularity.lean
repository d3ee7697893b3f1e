import RubyNormalForm.Proofs.Rules.Ordinary

/-!
# Every normal form is regular

The rules that are not known by their tags put strings together, or hand on what stands
inside their nodes. Each of them keeps regularity, and so does the normaliser.
-/

namespace RubyNormalForm.Rules

/-! ### Rules that hand on what they are given -/

section Handed

variable {inner : Normalizer} {ctx : Context} {inv : Form → Prop}
variable (each : ∀ n, Ensures (inner ctx n) inv)
include each

theorem ensures_value? (child : Raw) :
    Ensures (value? inner ctx child) (fun f => ∀ g ∈ f, inv g) := by
  unfold value?
  split
  · simpa using each _
  · split <;> simp

theorem ensures_values (children : List Raw) :
    Ensures (values inner ctx children) (fun fs => ∀ f ∈ fs, inv f) := by
  induction children with
  | nil => simp [values]
  | cons child rest ih =>
    simp only [values, ensures_bind, ensures_pure]
    refine (ensures_value? each child).mono ?_
    intro form first
    refine ih.mono ?_
    intro forms others f member
    obtain member | member := List.mem_append.1 member
    · exact first f (by simpa using member)
    · exact others f member

theorem ensures_arguments (child : Raw) :
    Ensures (arguments inner ctx child) (fun fs => ∀ f ∈ fs, inv f) := by
  unfold arguments entries
  split
  · split
    · exact ensures_values each _
    · simpa using each _
  · split <;> simp

theorem ensures_listed (children : List Raw) :
    Ensures (listed inner ctx children) (fun fs => ∀ f ∈ fs, inv f) := by
  induction children with
  | nil => simp [listed]
  | cons child rest ih =>
    unfold listed
    split
    · split
      · exact ih
      · simp only [ensures_bind, ensures_pure]
        refine (each _).mono ?_
        intro form first
        refine ih.mono ?_
        intro forms others
        simpa using ⟨first, others⟩
    · split
      · exact ih
      · exact ensures_error _

theorem ensures_statementsWith {body : Raw.Node → Result (List Form)}
    (bodies : ∀ n, Ensures (body n) (fun fs => ∀ f ∈ fs, inv f)) (child : Raw) :
    Ensures (statementsWith inner ctx body child) (fun fs => ∀ f ∈ fs, inv f) := by
  unfold statementsWith
  split
  · dsimp only
    split
    · exact bodies _
    · split
      · simp
      · split
        · exact ensures_listed each _
        · simpa using each _
  · split <;> simp

variable (ordinary : ∀ f, f.Ordinary → inv f)
include ordinary

theorem ensures_bodyStep {body : Raw.Node → Result (List Form)}
    (bodies : ∀ n, Ensures (body n) (fun fs => ∀ f ∈ fs, inv f)) (n : Raw.Node) :
    Ensures (bodyStep inner ctx body n) (fun fs => ∀ f ∈ fs, inv f) := by
  have inside := ensures_statementsWith each bodies
  have grouped : ∀ tag parts, tag = "rescue" ∨ tag = "ensure" →
      inv (Form.group tag parts).raiseLines := by
    intro tag parts isTag
    apply ordinary
    obtain rfl | rfl := isTag <;> simp
  simp only [bodyStep, ensures_bind]
  refine (inside (n.slot 0)).mono fun main isMain => ?_
  apply Ensures.of_forall
  intro rescue?
  apply Ensures.of_forall
  intro ensure?
  refine (inside (insideElse (n.slot 2))).mono fun others isOther => ?_
  -- without a rescue clause the guarded statements are those of the body and its `else`
  have joined : ∀ f ∈ main ++ others, inv f := by
    intro f member
    obtain member | member := List.mem_append.1 member
    · exact isMain f member
    · exact isOther f member
  cases rescue? with
  | none =>
    cases ensure? with
    | none => simpa using joined
    | some clause => simp [grouped]
  | some first =>
    simp only [ensures_bind, ensures_pure]
    apply Ensures.of_forall
    intro clauses
    cases ensure? with
    | none => simp [grouped]
    | some clause => simp [grouped]

theorem ensures_bodyStatements (n : Raw.Node) :
    Ensures (bodyStatements inner ctx n) (fun fs => ∀ f ∈ fs, inv f) := by
  induction size : n.size using Nat.strongRecOn generalizing n with
  | ind s ih =>
    subst size
    rw [bodyStatements]
    rw [Raw.Node.bySize_eq]
    refine ensures_bodyStep each ordinary ?_ n
    intro m
    by_cases smaller : m.size < n.size
    · simp only [smaller, if_true]
      exact ih m.size smaller m rfl
    · simp only [smaller, if_false]
      exact ensures_error _

theorem ensures_statements (child : Raw) :
    Ensures (statements inner ctx child) (fun fs => ∀ f ∈ fs, inv f) :=
  ensures_statementsWith each (ensures_bodyStatements each ordinary) child

end Handed

/-- Several statements are a block, and a single one stands for itself. -/
theorem inv_of_wrap {inv : Form → Prop} (ordinary : ∀ f, f.Ordinary → inv f) {fs : List Form}
    (each : ∀ f ∈ fs, inv f) : ∀ f ∈ wrap fs, inv f := by
  intro f member
  unfold wrap at member
  split at member
  · cases member
  · cases member
    exact each _ (by simp)
  · cases member
    apply ordinary
    simp [block]

theorem inv_of_wrapOrNil {inv : Form → Prop} (ordinary : ∀ f, f.Ordinary → inv f)
    {fs : List Form} (each : ∀ f ∈ fs, inv f) : inv (wrapOrNil fs) := by
  rw [wrapOrNil]
  cases wrapped : wrap fs with
  | none =>
    apply ordinary
    simp
  | some f => exact inv_of_wrap ordinary each f wrapped

/-! ### The texts of literals -/

/-- A text that denotes nothing is tagged with the encoding of the source. -/
theorem emptyIn_doubleQuoted (cs : Charset) (text : String) :
    (cs.doubleQuoted text).EmptyIn cs.encoding := by
  intro noBytes
  simp only [Charset.doubleQuoted] at noBytes ⊢
  simp [noBytes, Charset.encodingOf, Charset.isWideText]

theorem emptyIn_decode (q : Quoting) (cs : Charset) (text : String) :
    (q.decode cs text).EmptyIn cs.encoding := by
  cases q with
  | double => exact emptyIn_doubleQuoted cs text
  | _ =>
    intro _
    rfl

/-- What a fragment is like once the code in it has its normal form. -/
def Fragment.Regular (encoding : Encoding) : Fragment → Prop
  | .text _ _ => True
  | .piece p => p.Regular encoding

theorem Fragment.decode_regular {cs : Charset} {fragment : Fragment}
    (regular : fragment.Regular cs.encoding) (forced : Option Quoting) (text : Option String) :
    (fragment.decode cs forced text).Regular cs.encoding := by
  cases fragment with
  | text source opener => exact emptyIn_decode _ cs _
  | piece p => exact regular

theorem decode_regular {cs : Charset} {found : List Fragment}
    (regular : ∀ fragment ∈ found, fragment.Regular cs.encoding) (forced : Option Quoting) :
    ∀ p ∈ decode cs forced found, p.Regular cs.encoding := by
  intro p member
  rw [decode] at member
  obtain ⟨i, inRange, rfl⟩ := List.mem_iff_getElem.1 member
  rw [List.getElem_zipWith]
  exact Fragment.decode_regular (regular _ (List.getElem_mem _)) forced _

section Literals

variable {inner : Normalizer} {ctx : Context}
variable (each : ∀ n, Ensures (inner ctx n) (Form.Regular ctx.encoding))
include each

theorem ensures_fragmentsOf (n : Raw.Node) :
    Ensures (fragmentsOf inner ctx n) (fun found => ∀ fragment ∈ found,
      fragment.Regular ctx.encoding) := by
  have taken : ∀ f : Form, f.Regular ctx.encoding →
      ∀ fragment ∈ (piecesOf f).map Fragment.piece, fragment.Regular ctx.encoding := by
    intro f regular fragment member
    obtain ⟨p, inside, rfl⟩ := List.mem_map.1 member
    exact regular.pieces p inside
  have noString : ∀ f : Form, (interpolation f).tag ≠ "str" := by
    simp [interpolation, Form.of, Form.withLine]
  rw [fragmentsOf]
  split
  · simp [Fragment.Regular]
  · split
    · have inside := ensures_statements each (fun _ ordinary => ordinary.regular) (n.slot 0)
      rw [ensures_bind, body, ensures_map]
      refine inside.mono ?_
      intro statements regular
      split
      · simp [Fragment.Regular, Piece.Regular, Form.of, Form.withLine]
      · rename_i f single
        rw [ensures_pure]
        exact taken f (inv_of_wrap (fun _ ordinary => ordinary.regular) regular f single)
    · split
      · simp [Fragment.Regular, Piece.Regular, noString]
      · rw [ensures_bind]
        refine (each n).mono ?_
        intro f regular
        rw [ensures_pure]
        exact taken f regular

theorem ensures_fragments (parts : List Raw) :
    Ensures (fragments inner ctx parts) (fun found => ∀ fragment ∈ found,
      fragment.Regular ctx.encoding) := by
  induction parts with
  | nil => simp [fragments]
  | cons part rest ih =>
    unfold fragments
    split
    · simp only [ensures_bind, ensures_pure]
      refine (ensures_fragmentsOf each _).mono ?_
      intro first isFirst
      refine ih.mono ?_
      intro others isOther fragment member
      obtain member | member := List.mem_append.1 member
      · exact isFirst fragment member
      · exact isOther fragment member
    · split
      · exact ih
      · exact ensures_error _

theorem ensures_pieces (parts : List Raw) :
    Ensures (pieces inner ctx parts) (fun ps => ∀ p ∈ ps, p.Regular ctx.encoding) := by
  rw [pieces, ensures_map]
  refine (ensures_fragments each parts).mono ?_
  intro found regular
  exact decode_regular regular none

end Literals

/-! ### Every rule keeps regularity -/

/-- The result is regular for the encoding of its surroundings. -/
def RegularIn (ctx : Context) (f : Form) : Prop :=
  f.Regular ctx.encoding

theorem maintains_of_ordinary {rule : Rule} (h : rule.Ordinary) : rule.Maintains RegularIn := by
  intro inner _ ctx n
  exact (h inner ctx n).mono fun f ordinary => ordinary.regular

theorem bodyRule_regular : Rule.Maintains bodyRule RegularIn := by
  intro inner each ctx n
  rw [bodyRule, ensures_map]
  have inside := ensures_statements (each ctx) (fun _ ordinary => ordinary.regular) (n.slot 0)
  exact inside.mono fun fs regular => inv_of_wrapOrNil (fun _ ordinary => ordinary.regular) regular

theorem sequenceRule_regular : Rule.Maintains sequenceRule RegularIn := by
  intro inner each ctx n
  rw [sequenceRule, ensures_map]
  have inside := ensures_statements (each ctx) (fun _ ordinary => ordinary.regular) n.toRaw
  exact inside.mono fun fs regular => inv_of_wrapOrNil (fun _ ordinary => ordinary.regular) regular

theorem parenthesesRule_regular : Rule.Maintains parenthesesRule RegularIn := by
  intro inner each ctx n
  rw [parenthesesRule]
  split
  · split
    · refine (ordinary_methodParameters inner ctx _).mono ?_
      intro f ordinary
      exact ordinary.regular
    · exact bodyRule_regular inner each ctx n
  · exact bodyRule_regular inner each ctx n

theorem stringRule_regular : Rule.Maintains (quotedRule stringForm) RegularIn := by
  intro inner each ctx n
  simp only [quotedRule, ensures_bind, ensures_pure]
  apply Ensures.of_forall
  intro parts
  exact (ensures_pieces (each ctx) parts).mono fun ps regular => stringForm_regular regular

theorem contentRule_regular : Rule.Maintains contentRule RegularIn := by
  intro inner each ctx n
  simp only [contentRule, ensures_bind, ensures_pure]
  exact (ensures_pieces (each ctx) _).mono fun ps regular => stringForm_regular regular

theorem textTokenRule_regular : Rule.Maintains textTokenRule RegularIn := by
  intro inner each ctx n
  simp only [textTokenRule, ensures_bind, ensures_pure]
  exact (ensures_pieces (each ctx) _).mono fun ps regular => stringForm_regular regular

theorem concatenationRule_regular : Rule.Maintains concatenationRule RegularIn := by
  intro inner each ctx n
  simp only [concatenationRule, ensures_bind, ensures_pure]
  apply Ensures.of_forall
  intro leftNode
  refine (each ctx leftNode).mono fun left leftRegular => ?_
  apply Ensures.of_forall
  intro rightNode
  refine (each ctx rightNode).mono fun right rightRegular => ?_
  have joined : ∀ p ∈ piecesOf left ++ piecesOf right, p.Regular ctx.encoding := by
    intro p member
    obtain member | member := List.mem_append.1 member
    · exact leftRegular.pieces p member
    · exact rightRegular.pieces p member
  exact (stringForm_regular joined).of_unlined_eq rfl

/-- A string node of one text. -/
theorem regular_str {encoding : Encoding} {s : ByteString} (hs : s.EmptyIn encoding) :
    (Form.of "str" [.str s]).Regular encoding := by
  refine ⟨?_, fun isNot => absurd isNot (by simp [Form.of]), fun _ => nofun⟩
  intro t member
  cases List.mem_singleton.1 member
  exact hs

theorem characterRule_regular : Rule.Maintains characterRule RegularIn := by
  intro inner _ ctx n
  simp only [characterRule, ensures_bind, ensures_pure]
  apply Ensures.of_forall
  intro t
  exact regular_str (emptyIn_doubleQuoted ctx.charset _)

theorem keyword_regular (ctx : Context) (line : Nat) (word : String) :
    Ensures (keyword ctx line word) (RegularIn ctx) := by
  rw [keyword]
  split
  · rename_i isValue
    simp only [Bool.or_eq_true, beq_iff_eq] at isValue
    rw [ensures_ok]
    apply Form.Ordinary.regular
    obtain ((rfl | rfl) | rfl) | rfl := isValue <;> simp
  · split
    · rw [ensures_ok]
      exact regular_str fun _ => rfl
    · split
      · rw [ensures_ok]
        exact (ordinary_literal _).regular
      · split
        · rw [ensures_ok]
          apply Form.Ordinary.regular
          simp
        · exact ensures_error _

theorem backReference_ordinary (text : String) :
    Ensures (backReference text) Form.Ordinary := by
  rw [backReference]
  split
  · split <;> simp
  · exact ensures_error _

theorem readToken_regular (ctx : Context) (t : Token) :
    Ensures (readToken ctx t) (RegularIn ctx) := by
  have settled : ∀ x : Result Form, Ensures x (RegularIn ctx) →
      Ensures (x >>= fun f => pure (f.withLine (some (ctx.line t.line)))) (RegularIn ctx) := by
    intro x regular
    simp only [ensures_bind, ensures_pure]
    exact regular.mono fun f isRegular => Form.Regular.of_unlined_eq isRegular rfl
  rw [readToken]
  dsimp only
  split
  · apply settled
    rw [ensures_pure]
    apply Form.Ordinary.regular
    simp
  · split
    · rename_i isVariable
      simp only [Bool.or_eq_true, beq_iff_eq] at isVariable
      apply settled
      rw [ensures_pure]
      apply Form.Ordinary.regular
      obtain ((isKind | isKind) | isKind) | isKind := isVariable <;> simp [isKind]
    · split
      · apply settled
        exact (backReference_ordinary t.text).mono fun f ordinary => ordinary.regular
      · split
        · apply settled
          exact keyword_regular ctx _ t.text
        · apply settled
          exact ensures_throw _

theorem tokenRule_regular : Rule.Maintains tokenRule RegularIn := by
  intro inner _ ctx n
  simp only [tokenRule, ensures_bind]
  exact Ensures.of_forall fun t => readToken_regular ctx t

theorem referenceRule_regular : Rule.Maintains referenceRule RegularIn := by
  intro inner _ ctx n
  simp only [referenceRule, ensures_bind]
  exact Ensures.of_forall fun m => Ensures.of_forall fun t => readToken_regular ctx t

theorem arrayRule_regular : Rule.Maintains arrayRule RegularIn := by
  intro inner each ctx n
  have listed : ∀ child, Ensures ((arguments inner ctx child).map array) (RegularIn ctx) := by
    intro child
    rw [ensures_map]
    apply Ensures.of_forall
    intro fs
    exact (ordinary_array fs).regular
  rw [arrayRule]
  split
  · split
    · exact listed _
    · exact each ctx _
  · exact listed _

theorem commentRule_regular : Rule.Maintains commentRule RegularIn := by
  intro inner each ctx n
  simp only [commentRule, ensures_bind, ensures_pure]
  apply Ensures.of_forall
  intro text
  apply Ensures.of_forall
  intro m
  exact (each ctx m).mono fun f regular => regular.withComments (some text)

theorem argumentsRule_regular : Rule.Maintains argumentsRule RegularIn := by
  intro inner each ctx n
  simp only [argumentsRule, ensures_bind, ensures_pure]
  apply Ensures.of_forall
  intro m
  refine (each ctx m).mono fun f regular => ?_
  refine (ensures_arguments (each ctx) _).mono fun args isRegular => ?_
  exact regular.pushAll isRegular

theorem chain_tag (tag : String) (right : Form) (item : Item) :
    (chain tag right item).tag = tag := by
  cases item with
  | node leftTag items line comments =>
    rw [chain.eq_def]
    dsimp only
    split
    · split
      · split <;> rfl
      · rfl
    · rfl
  | _ => rfl

theorem boolean_tag (tag : String) (grouped : Bool) (left right : Form) :
    (boolean tag grouped left right).tag = tag := by
  rw [boolean]
  split
  · rfl
  · exact chain_tag tag right left.toItem

/-- A binary operator gives a negation over a call, or an ordinary form. -/
theorem binary_regular (encoding : Encoding) (operator : String) (grouped : Bool)
    (left right : Form) : (binary operator grouped left right).Regular encoding := by
  rw [binary]
  split
  · apply Form.Ordinary.regular
    simp [Form.Ordinary, boolean_tag]
  · split
    · apply Form.Ordinary.regular
      simp [Form.Ordinary, boolean_tag]
    · split
      · apply Form.Ordinary.regular
        simp
      · split
        · apply Form.Ordinary.regular
          simp
        · split
          · refine ⟨?_, ?_, fun isString => absurd isString (by simp [Form.of])⟩
            · intro s member
              simp [Form.text_mem_piecesOf, Form.of] at member
            · intro _ item member
              cases List.mem_singleton.1 member
              rfl
          · apply Form.Ordinary.regular
            simp

theorem binaryRule_regular : Rule.Maintains binaryRule RegularIn := by
  intro inner _ ctx n
  simp only [binaryRule, ensures_bind, ensures_pure]
  apply Ensures.of_forall
  intro leftNode
  apply Ensures.of_forall
  intro left
  apply Ensures.of_forall
  intro operator
  apply Ensures.of_forall
  intro rightNode
  apply Ensures.of_forall
  intro right
  exact binary_regular _ operator _ left right

/-- Every rule keeps regularity: those known by their tags, and the others one by one. -/
theorem rules_regular : ∀ entry ∈ rules, Rule.Maintains entry.2 RegularIn := by
  have ordinary : ∀ {rule : Rule}, rule.Ordinary → rule.Maintains RegularIn := maintains_of_ordinary
  simp only [rules, List.forall_mem_cons, List.not_mem_nil, false_implies, implies_true, and_true]
  -- in the order of the table
  exact ⟨ordinary ordinary_assignRule,
    ordinary ordinary_operatorAssignRule,
    ordinary fun inner ctx n => by simp [multipleAssignRule],
    sequenceRule_regular,
    sequenceRule_regular,
    ordinary fun inner ctx n => by simp [constant],
    parenthesesRule_regular,
    ordinary fun inner ctx n => by simp [blockCallRule],
    ordinary fun inner ctx n => by simp [lambdaRule],
    ordinary fun inner ctx n => by simp [hookRule],
    ordinary fun inner ctx n => by simp [hookRule],
    ordinary fun inner ctx n => by simp [conditional],
    ordinary fun inner ctx n => by simp [conditional],
    ordinary fun inner ctx n => by simp [conditional],
    ordinary fun inner ctx n => by simp [modifier],
    ordinary fun inner ctx n => by simp [modifier],
    ordinary fun inner ctx n => by simp [ternary],
    ordinary ordinary_caseRule,
    bodyRule_regular,
    sequenceRule_regular,
    ordinary fun inner ctx n => by simp [fallbackRule],
    ordinary (ordinary_numberRule _ _),
    ordinary (ordinary_numberRule _ _),
    ordinary (ordinary_numberRule _ _),
    ordinary (ordinary_numberRule _ _),
    characterRule_regular,
    ordinary fun inner ctx n => by simp [labelRule],
    tokenRule_regular,
    tokenRule_regular,
    tokenRule_regular,
    tokenRule_regular,
    tokenRule_regular,
    textTokenRule_regular,
    referenceRule_regular,
    referenceRule_regular,
    ordinary fun inner ctx n => by simp [constantPath],
    ordinary fun inner ctx n => by simp [constantPath],
    stringRule_regular,
    contentRule_regular,
    concatenationRule_regular,
    ordinary fun inner ctx n => by simp [quotedRule],
    ordinary fun inner ctx n => by simp [quotedRule],
    ordinary fun inner ctx n => by simp [symbolRule],
    ordinary fun inner ctx n => by simp [symbolRule],
    ordinary fun inner ctx n => by simp [regexpRule],
    ordinary fun inner ctx n => by simp [wordsRule],
    ordinary fun inner ctx n => by simp [wordsRule],
    ordinary fun inner ctx n => by simp [wordsRule],
    ordinary fun inner ctx n => by simp [wordsRule],
    arrayRule_regular,
    ordinary fun inner ctx n => by simp [hashRule],
    ordinary fun inner ctx n => by simp [hashRule],
    ordinary fun inner ctx n => by simp [rangeRule],
    ordinary fun inner ctx n => by simp [rangeRule],
    ordinary fun inner ctx n => by simp [loop],
    ordinary fun inner ctx n => by simp [loop],
    ordinary fun inner ctx n => by simp [postfixLoop],
    ordinary fun inner ctx n => by simp [postfixLoop],
    ordinary fun inner ctx n => by simp [forLoop],
    ordinary fun inner ctx n => by simp [callRule],
    ordinary fun inner ctx n => by simp [bareCallRule],
    ordinary fun inner ctx n => by simp [bareCallRule],
    ordinary fun inner ctx n => by simp [commandRule, bareCallRule],
    ordinary fun inner ctx n => by simp [commandCallRule, callRule],
    argumentsRule_regular,
    ordinary fun inner ctx n => by simp [elementRule],
    ordinary fun inner ctx n => by simp [superRule],
    ordinary fun inner ctx n => by simp [constant],
    ordinary fun inner ctx n => by simp [yieldRule],
    ordinary fun inner ctx n => by simp [constant],
    ordinary fun inner ctx n => by simp [jump],
    ordinary fun inner ctx n => by simp [constant],
    ordinary fun inner ctx n => by simp [jump],
    ordinary fun inner ctx n => by simp [jump],
    ordinary fun inner ctx n => by simp [constant],
    ordinary fun inner ctx n => by simp [constant],
    ordinary fun inner ctx n => by simp [marked],
    ordinary fun inner ctx n => by simp [marked],
    ordinary fun inner ctx n => by simp [marked],
    ordinary fun inner ctx n => by simp [constant],
    ordinary fun inner ctx n => by simp [methodRule],
    ordinary fun inner ctx n => by simp [singletonMethodRule],
    ordinary fun inner ctx n => by simp [classRule],
    ordinary fun inner ctx n => by simp [moduleRule],
    ordinary fun inner ctx n => by simp [singletonClassRule],
    commentRule_regular,
    ordinary fun inner ctx n => by simp [parametersRule],
    ordinary fun inner ctx n => by simp [aliasRule],
    ordinary fun inner ctx n => by simp [variableAliasRule],
    ordinary ordinary_undefRule,
    binaryRule_regular,
    ordinary fun inner ctx n => by simp [unaryRule],
    ordinary fun inner ctx n => by simp [definedRule]⟩

/-- Every normal form is regular. -/
theorem normalizeNode_regular (ctx : Context) (n : Raw.Node) :
    Ensures (normalizeNode ctx n) (Form.Regular ctx.encoding) := by
  refine normalizeNode_maintains rules_regular ?_ ctx n
  intro ctx n f regular
  exact Form.Regular.of_unlined_eq regular (unlined_settle ctx n f).symm

end RubyNormalForm.Rules
