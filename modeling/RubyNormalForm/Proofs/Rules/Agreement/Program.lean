import RubyNormalForm.Proofs.Rules.Agreement.Text

/-!
# Agreement of whole programs

Every rule of the table respects every likeness, so that two runs over the same tree in like
surroundings agree. The consequences are read off by choosing how lines and encodings are to
correspond.
-/

namespace RubyNormalForm

open Rules

variable {k : Likeness} {p : Raw → Prop}

theorem rules_respect (hp : Raw.Hereditary p) :
    ∀ entry ∈ rules, Rule.Respects entry.2 k p := by
  simp only [rules, List.forall_mem_cons, List.not_mem_nil, false_implies, implies_true, and_true]
  -- in the order of the table
  exact ⟨assignRule_respects hp,
    operatorAssignRule_respects hp,
    multipleAssignRule_respects hp,
    sequenceRule_respects hp,
    sequenceRule_respects hp,
    constant_respects _,
    parenthesesRule_respects hp,
    blockCallRule_respects hp,
    lambdaRule_respects hp,
    hookRule_respects hp _,
    hookRule_respects hp _,
    conditional_respects hp _ _,
    conditional_respects hp _ _,
    conditional_respects hp _ _,
    modifier_respects hp _,
    modifier_respects hp _,
    ternary_respects hp,
    caseRule_respects hp,
    bodyRule_respects hp,
    sequenceRule_respects hp,
    fallbackRule_respects hp,
    integerRule_respects,
    floatRule_respects,
    rationalRule_respects,
    imaginaryRule_respects,
    characterRule_respects,
    labelRule_respects,
    tokenRule_respects hp,
    tokenRule_respects hp,
    tokenRule_respects hp,
    tokenRule_respects hp,
    tokenRule_respects hp,
    textTokenRule_respects hp,
    referenceRule_respects hp,
    referenceRule_respects hp,
    constantPath_respects hp _,
    constantPath_respects hp _,
    quotedRule_respects hp assembles_stringForm,
    contentRule_respects hp,
    concatenationRule_respects hp,
    quotedRule_respects hp assembles_commandForm,
    quotedRule_respects hp assembles_symbolForm,
    symbolRule_respects,
    symbolRule_respects,
    regexpRule_respects hp,
    wordsRule_respects hp assembles_stringForm,
    wordsRule_respects hp assembles_stringForm,
    wordsRule_respects hp assembles_symbolForm,
    wordsRule_respects hp assembles_symbolForm,
    arrayRule_respects hp,
    hashRule_respects hp,
    hashRule_respects hp,
    rangeRule_respects hp _,
    rangeRule_respects hp _,
    loop_respects hp _,
    loop_respects hp _,
    postfixLoop_respects hp _,
    postfixLoop_respects hp _,
    forLoop_respects hp,
    callRule_respects hp,
    bareCallRule_respects hp,
    bareCallRule_respects hp,
    commandRule_respects hp,
    commandCallRule_respects hp,
    argumentsRule_respects hp,
    elementRule_respects hp,
    superRule_respects hp,
    constant_respects _,
    yieldRule_respects hp,
    constant_respects _,
    jump_respects hp _,
    constant_respects _,
    jump_respects hp _,
    jump_respects hp _,
    constant_respects _,
    constant_respects _,
    marked_respects hp _,
    marked_respects hp _,
    marked_respects hp _,
    constant_respects _,
    methodRule_respects hp,
    singletonMethodRule_respects hp,
    classRule_respects hp,
    moduleRule_respects hp,
    singletonClassRule_respects hp,
    commentRule_respects hp,
    parametersRule_respects hp,
    aliasRule_respects hp,
    variableAliasRule_respects,
    undefRule_respects hp,
    binaryRule_respects hp,
    unaryRule_respects hp,
    definedRule_respects hp⟩

/-- Two runs of the normaliser over a tree, in like surroundings, agree. -/
theorem agree_normalize (hp : Raw.Hereditary p) {config config' : Config} {source source' : Source}
    (alike : Context.Like k p (.ofSource source config) (.ofSource source' config')) {r : Raw}
    (hr : p r) :
    Agree (Option.Rel (Form.Like k)) (normalize config source r) (normalize config' source' r) := by
  have each := normalizeNode_respects hp (rules_respect hp) (k := k)
  cases r with
  | node tag children =>
    simp only [normalize, normalizeProgram]
    split
    · refine (agree_body hp each alike (hp.slot (n := ⟨tag, children⟩) hr 0)).bind
        fun f g bodies => .pure ?_
      exact optionRel_map bodies fun _ _ => Form.Like.settleLines
    · exact (each _ _ alike ⟨tag, children⟩ hr).bind fun f g same => .pure (.some same)
  | _ =>
    unfold normalize
    dsimp only
    split
    · exact .ok .none
    · exact .error _

end RubyNormalForm
