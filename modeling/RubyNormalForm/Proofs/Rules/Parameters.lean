import RubyNormalForm.Proofs.Rules.Clauses

/-!
# Parameters

A parameter is of one of nine kinds. What a part of a raw tree declares is said without any
computation, by relations that have one rule for each thing that may stand there: a parameter that
is taken apart declares its parts, to any depth, and a pair declares a name with a default. The rest
of the module shows that the normal form of such a part is just the parameter it declares, written
in the way of its kind, whatever gives the defaults their normal forms.
-/

namespace RubyNormalForm

open Raw Rules

/-! ### Parameters -/

/-- A parameter of a method or a block. A parameter that takes what is left over, or the block, need
not have a name. -/
inductive Parameter where
  | required (name : String)
  | group (parts : List Parameter)
  | optional (name : String) (default : Form)
  | rest (name : Option String)
  | keyword (name : String) (default : Option Form)
  | keywordRest (name : Option String)
  /-- The refusal of all keywords. -/
  | noKeywords
  /-- All arguments, to be passed on. -/
  | forward
  | block (name : Option String)

namespace Parameter

mutual

/-- How a parameter is written. -/
def item : Parameter → Item
  | required name => .sym name
  | group parts => (Form.of "masgn" (items parts)).toItem
  | optional name default => (Form.of "lasgn" [.sym name, default.toItem]).toItem
  | rest name => .sym ("*" ++ name.getD "")
  | keyword name default =>
    (Form.of "kwarg" (.sym name :: default.toList.map Form.toItem)).toItem
  | keywordRest name => .sym ("**" ++ name.getD "")
  | noKeywords => .sym "**nil"
  | forward => (Form.of "forward_args" []).toItem
  | block name => .sym ("&" ++ name.getD "")

/-- How several parameters are written. -/
def items : List Parameter → List Item
  | [] => []
  | p :: others => p.item :: items others

end

theorem items_eq_map (ps : List Parameter) : items ps = ps.map item := by
  induction ps with
  | nil => rfl
  | cons p others ih => rw [items, ih, List.map_cons]

theorem item_rest (name : Option String) : (rest name).item = .sym ("*" ++ name.getD "") := by
  rw [item]

theorem item_keywordRest (name : Option String) :
    (keywordRest name).item = .sym ("**" ++ name.getD "") := by
  rw [item]

theorem item_block (name : Option String) : (block name).item = .sym ("&" ++ name.getD "") := by
  rw [item]

theorem item_ne_nil (p : Parameter) : p.item ≠ .nil := by
  cases p <;> simp [item, Form.toItem]

end Parameter

/-! ### What is declared -/

/-- The name that stands in a child, possibly in a variable; none if the child is absent. -/
inductive Named : Raw → Option String → Prop
  | anonymous {child : Raw} (absent : child.isAbsent = true) : Named child none
  | token {n : Node} {text : String} (isToken : tokenText n = .ok text) : Named n.toRaw (some text)
  | field {n : Node} {name : Option String} (isField : n.tag = "var_field")
      (inside : Named (n.slot 0) name) : Named n.toRaw name

/-- The parameter that an entry of a list of required parameters declares. -/
inductive Required : Raw → Parameter → Prop
  | name {n : Node} {text : String} (isToken : tokenText n = .ok text) :
      Required n.toRaw (.required text)
  | field {child : Raw} {rest : List Raw} {p : Parameter} (inside : Required child p) :
      Required (.node "var_field" (child :: rest)) p
  | rest {n : Node} {name : Option String} (isRest : n.tag = "star" ∨ n.tag = "rest_param")
      (named : Named (n.slot 0) name) : Required n.toRaw (.rest name)
  | group {children : List Raw} {parts : List Parameter}
      (each : List.Forall₂ Required (present children) parts) :
      Required (.node "mlhs" children) (.group parts)

/-- A label is its keyword with any number of colons after it. -/
structure IsLabel (label keyword : String) : Prop where
  colons : ∃ count, label.toList = keyword.toList ++ List.replicate count ':'
  bare : keyword.toList.getLast? ≠ some ':'

section Pairs

variable (inner : Normalizer) (ctx : Context)

/-- The parameter that a name and a default declare. -/
inductive OptionalPair : Node → Parameter → Prop
  | pair {n default : Node} {text : String} {f : Form} (named : name (n.slot 0) = .ok text)
      (hasDefault : n.slot 1 = default.toRaw) (normal : inner ctx default = .ok f) :
      OptionalPair n (.optional text f)

/-- The parameter that a label declares, with its default if it has one. -/
inductive KeywordPair : Node → Parameter → Prop
  | bare {n : Node} {label keyword : String} (named : name (n.slot 0) = .ok label)
      (isLabel : IsLabel label keyword) (noDefault : (n.slot 1).isAbsent = true) :
      KeywordPair n (.keyword keyword none)
  | pair {n default : Node} {label keyword : String} {f : Form}
      (named : name (n.slot 0) = .ok label) (isLabel : IsLabel label keyword)
      (hasDefault : n.slot 1 = default.toRaw) (normal : inner ctx default = .ok f) :
      KeywordPair n (.keyword keyword (some f))

end Pairs

/-! ### What is written -/

/-- The computation succeeds just if something is declared, and then gives that as it is written. -/
structure Writes {β γ : Type} (result : Result β) (write : γ → β) (declared : γ → Prop) : Prop where
  sound : ∀ {c}, declared c → result = .ok (write c)
  complete : ∀ {b}, result = .ok b → ∃ c, declared c

theorem Writes.eq_ok_iff {β γ : Type} {result : Result β} {write : γ → β} {declared : γ → Prop}
    (writes : Writes result write declared) {b : β} :
    result = .ok b ↔ ∃ c, declared c ∧ b = write c := by
  constructor
  · intro found
    obtain ⟨c, isDeclared⟩ := writes.complete found
    rw [writes.sound isDeclared] at found
    cases found
    exact ⟨c, isDeclared, rfl⟩
  · rintro ⟨c, isDeclared, rfl⟩
    exact writes.sound isDeclared

/-- A computation that goes through a list writes what each element declares. -/
theorem writes_all {α β γ : Type} {one : α → Result β} (all : List α → Result (List β))
    (start : all [] = .ok []) (step : ∀ a rest, all (a :: rest) = (do
      let b ← one a
      let bs ← all rest
      return b :: bs)) {write : γ → β} {declares : α → γ → Prop}
    (each : ∀ a, Writes (one a) write (declares a)) (as : List α) :
    Writes (all as) (List.map write) (List.Forall₂ declares as) := by
  induction as with
  | nil =>
    refine ⟨?_, fun _ => ⟨[], .nil⟩⟩
    intro cs declared
    cases declared
    exact start
  | cons a rest ih =>
    constructor
    · intro cs declared
      cases declared with
      | cons first others =>
        rw [step, (each a).sound first, ok_bind, ih.sound others]
        rfl
    · intro bs found
      rw [step] at found
      obtain ⟨b, isFirst, found⟩ := bind_eq_ok.1 found
      obtain ⟨others, areOthers, -⟩ := bind_eq_ok.1 found
      obtain ⟨c, first⟩ := (each a).complete isFirst
      obtain ⟨cs, others⟩ := ih.complete areOthers
      exact ⟨c :: cs, .cons first others⟩

theorem eq_of_isAbsent {child : Raw} (absent : child.isAbsent = true) :
    child = .nil ∨ child = .bool false := by
  cases child with
  | nil => exact .inl rfl
  | bool b =>
    cases b with
    | true => cases absent
    | false => exact .inr rfl
  | _ => cases absent

/-! ### Names -/

theorem isToken_of_tokenText {n : Node} {text : String} (isToken : tokenText n = .ok text) :
    n.isToken = true := by
  obtain ⟨t, found, -⟩ := bind_eq_ok.1 isToken
  rw [token] at found
  split at found
  · assumption
  · cases found

/-- Only the tags of tokens begin with their mark. -/
theorem tag_ne_of_tokenText {n : Node} {text : String} (isToken : tokenText n = .ok text)
    (tag : String) (unmarked : tag.toList.head? ≠ some '@') : n.tag ≠ tag := by
  rintro rfl
  have marked := isToken_of_tokenText isToken
  rw [Node.isToken, beq_iff_eq] at marked
  exact unmarked marked

theorem sigilParameter_field (sigil : String) {n : Node} (isField : n.tag = "var_field") :
    sigilParameter sigil n.toRaw = sigilParameter sigil (n.slot 0) := by
  obtain ⟨tag, children⟩ := n
  cases isField
  cases children with
  | nil => rfl
  | cons child rest => rfl

theorem sigilParameter_other (sigil : String) {n : Node} (notField : n.tag ≠ "var_field") :
    sigilParameter sigil n.toRaw = (tokenText n).map fun text => .sym (sigil ++ text) := by
  rw [Node.toRaw, sigilParameter.eq_def]
  simp only [beq_false_of_ne notField, Bool.false_eq_true, if_false]
  rfl

/-- A sigil stands before the name, or alone. -/
theorem writes_sigilParameter (sigil : String) (child : Raw) :
    Writes (sigilParameter sigil child) (fun name => .sym (sigil ++ name.getD ""))
      (Named child) where
  sound named := by
    induction named with
    | anonymous absent =>
      rw [Option.getD_none, String.append_empty]
      obtain rfl | rfl := eq_of_isAbsent absent <;> rfl
    | token isToken =>
      have notField := tag_ne_of_tokenText isToken "var_field" (by decide)
      rw [sigilParameter_other sigil notField, isToken]
      rfl
    | field isField inside ih => rw [sigilParameter_field sigil isField, ih]
  complete {item} found := by
    fun_induction sigilParameter sigil child with
    | case1 tag isField =>
      exact ⟨none, .field (n := ⟨tag, []⟩) (eq_of_beq isField) (.anonymous rfl)⟩
    | case2 tag isField child rest ih =>
      obtain ⟨name, named⟩ := ih found
      exact ⟨name, .field (n := ⟨tag, child :: rest⟩) (eq_of_beq isField) named⟩
    | case3 tag children notField =>
      obtain ⟨text, isToken, -⟩ := bind_eq_ok.1 found
      exact ⟨some text, .token (n := ⟨tag, children⟩) isToken⟩
    | case4 child notNode absent => exact ⟨none, .anonymous absent⟩
    | case5 child notNode isPresent => cases found

/-! ### Required parameters -/

theorem requiredParameter_mlhs (children : List Raw) :
    requiredParameter (.node "mlhs" children) =
      (requiredParameters children).map fun items => (Form.of "masgn" items).toItem := by
  rw [requiredParameter.eq_def]
  rfl

theorem requiredParameter_rest {n : Node} (isRest : n.tag = "star" ∨ n.tag = "rest_param") :
    requiredParameter n.toRaw = sigilParameter "*" (n.slot 0) := by
  obtain ⟨tag, children⟩ := n
  obtain rfl | rfl := isRest <;> cases children <;> rfl

theorem requiredParameter_field {child : Raw} {rest : List Raw} {item : Item} :
    requiredParameter (.node "var_field" (child :: rest)) = .ok item ↔
      requiredParameter child = .ok item := by
  cases child with
  | node tag children => exact Iff.rfl
  | _ =>
    constructor
    · intro found
      cases found
    · intro found
      cases found

theorem requiredParameter_other {n : Node} (notList : n.tag ≠ "mlhs")
    (notRest : ¬ (n.tag = "star" ∨ n.tag = "rest_param")) (notField : n.tag ≠ "var_field") :
    requiredParameter n.toRaw = (tokenText n).map Item.sym := by
  have notRestTag : isRestTag n.tag = false := by simpa [isRestTag] using notRest
  rw [Node.toRaw, requiredParameter.eq_def]
  simp only [beq_false_of_ne notList, notRestTag, beq_false_of_ne notField, Bool.false_eq_true,
    if_false]
  rfl

theorem requiredParameter_token {n : Node} {text : String} (isToken : tokenText n = .ok text) :
    requiredParameter n.toRaw = .ok (.sym text) := by
  have notRest : ¬ (n.tag = "star" ∨ n.tag = "rest_param") := by
    rintro (isStar | isRest)
    · exact tag_ne_of_tokenText isToken "star" (by decide) isStar
    · exact tag_ne_of_tokenText isToken "rest_param" (by decide) isRest
  rw [requiredParameter_other (tag_ne_of_tokenText isToken "mlhs" (by decide)) notRest
    (tag_ne_of_tokenText isToken "var_field" (by decide)), isToken]
  rfl

theorem requiredParameters_absent {child : Raw} (absent : child.isAbsent = true)
    (rest : List Raw) : requiredParameters (child :: rest) = requiredParameters rest := by
  rw [requiredParameters, if_pos absent]

theorem requiredParameters_present {child : Raw} (isPresent : child.isAbsent = false)
    (rest : List Raw) : requiredParameters (child :: rest) = (do
      let item ← requiredParameter child
      let items ← requiredParameters rest
      return item :: items) := by
  rw [requiredParameters, isPresent, if_neg Bool.false_ne_true]

theorem present_cons_of_not_isAbsent {child : Raw} (isPresent : child.isAbsent = false)
    (rest : List Raw) : present (child :: rest) = child :: present rest := by
  simp [present, isPresent]

-- The recursion is that of the parameters: a group goes on in all its parts, a variable in its
-- first child.
mutual

theorem required_of_requiredParameter (child : Raw) {item : Item}
    (found : requiredParameter child = .ok item) : ∃ p, Required child p := by
  cases child with
  | node tag children =>
    by_cases isList : tag = "mlhs"
    · subst isList
      rw [requiredParameter_mlhs] at found
      obtain ⟨items, areItems, -⟩ := map_eq_ok.1 found
      obtain ⟨parts, each⟩ := required_of_requiredParameters children areItems
      exact ⟨.group parts, .group each⟩
    by_cases isRest : tag = "star" ∨ tag = "rest_param"
    · rw [← Node.toRaw.eq_1 ⟨tag, children⟩, requiredParameter_rest isRest] at found
      obtain ⟨name, named⟩ := (writes_sigilParameter "*" _).complete found
      exact ⟨.rest name, .rest (n := ⟨tag, children⟩) isRest named⟩
    by_cases isField : tag = "var_field"
    · subst isField
      cases children with
      | nil => cases found
      | cons first rest =>
        obtain ⟨p, inside⟩ := required_of_requiredParameter first (requiredParameter_field.1 found)
        exact ⟨p, .field inside⟩
    · rw [← Node.toRaw.eq_1 ⟨tag, children⟩,
        requiredParameter_other isList isRest isField] at found
      obtain ⟨text, isToken, -⟩ := map_eq_ok.1 found
      exact ⟨.required text, .name (n := ⟨tag, children⟩) isToken⟩
  | _ => cases found

theorem required_of_requiredParameters (children : List Raw) {items : List Item}
    (found : requiredParameters children = .ok items) :
    ∃ ps, List.Forall₂ Required (present children) ps := by
  cases children with
  | nil => exact ⟨[], .nil⟩
  | cons child rest =>
    cases absence : child.isAbsent with
    | true =>
      rw [requiredParameters_absent absence] at found
      rw [present_cons, present_of_isAbsent absence]
      exact required_of_requiredParameters rest found
    | false =>
      rw [requiredParameters_present absence] at found
      rw [present_cons_of_not_isAbsent absence]
      obtain ⟨item, isItem, found⟩ := bind_eq_ok.1 found
      obtain ⟨others, areOthers, -⟩ := bind_eq_ok.1 found
      obtain ⟨p, first⟩ := required_of_requiredParameter child isItem
      obtain ⟨ps, each⟩ := required_of_requiredParameters rest areOthers
      exact ⟨p :: ps, .cons first each⟩

end

mutual

theorem requiredParameter_of_required (child : Raw) {p : Parameter} (required : Required child p) :
    requiredParameter child = .ok p.item := by
  cases required with
  | name isToken => rw [requiredParameter_token isToken, Parameter.item]
  | @field first rest _ inside =>
    exact requiredParameter_field.2 (requiredParameter_of_required first inside)
  | rest isRest named =>
    rw [requiredParameter_rest isRest, (writes_sigilParameter "*" _).sound named,
      Parameter.item_rest]
  | @group children parts each =>
    rw [requiredParameter_mlhs, requiredParameters_of_required children each, Parameter.item,
      Parameter.items_eq_map]
    rfl

theorem requiredParameters_of_required (children : List Raw) {ps : List Parameter}
    (each : List.Forall₂ Required (present children) ps) :
    requiredParameters children = .ok (ps.map Parameter.item) := by
  cases children with
  | nil =>
    cases each
    rfl
  | cons child rest =>
    cases absence : child.isAbsent with
    | true =>
      rw [present_cons, present_of_isAbsent absence] at each
      rw [requiredParameters_absent absence]
      exact requiredParameters_of_required rest each
    | false =>
      rw [present_cons_of_not_isAbsent absence] at each
      cases each with
      | cons first others =>
        rw [requiredParameters_present absence, requiredParameter_of_required child first, ok_bind,
          requiredParameters_of_required rest others]
        rfl

end

/-! ### Pairs -/

theorem toList_withoutColons (label : String) :
    (withoutColons label).toList = label.toList.rdropWhile (· == ':') := by
  rw [withoutColons, String.toList_ofList, List.rdropWhile]

theorem isLabel_withoutColons (label : String) : IsLabel label (withoutColons label) where
  colons := by
    refine ⟨(label.toList.rtakeWhile (· == ':')).length, ?_⟩
    have colons : label.toList.rtakeWhile (· == ':') =
        List.replicate (label.toList.rtakeWhile (· == ':')).length ':' := by
      rw [List.eq_replicate_iff]
      refine ⟨rfl, fun c member => ?_⟩
      simpa using List.mem_rtakeWhile_imp member
    rw [toList_withoutColons, ← colons, List.rdropWhile_append_rtakeWhile]
  bare := by
    rw [toList_withoutColons]
    intro isLast
    obtain ⟨nonempty, isColon⟩ := List.mem_getLast?_eq_getLast isLast
    have notColon := List.rdropWhile_last_not (· == ':') label.toList nonempty
    rw [← isColon] at notColon
    exact notColon rfl

theorem rdropWhile_append_colons (text : List Char) (count : Nat) :
    (text ++ List.replicate count ':').rdropWhile (· == ':') = text.rdropWhile (· == ':') := by
  induction count with
  | zero => rw [List.replicate_zero, List.append_nil]
  | succ count ih =>
    rw [List.replicate_succ', ← List.append_assoc, List.rdropWhile_concat_pos _ _ _ rfl, ih]

theorem IsLabel.withoutColons_eq {label keyword : String} (isLabel : IsLabel label keyword) :
    withoutColons label = keyword := by
  obtain ⟨count, split⟩ := isLabel.colons
  rw [← String.toList_inj, toList_withoutColons, split, rdropWhile_append_colons,
    List.rdropWhile_eq_self_iff]
  intro nonempty isColon
  exact isLabel.bare (by rw [List.getLast?_eq_some_getLast nonempty, eq_of_beq isColon])

theorem nodeAt_eq_ok {n m : Node} {i : Nat} : n.nodeAt i = .ok m ↔ n.slot i = m.toRaw := by
  constructor
  · exact slot_of_nodeAt
  · intro isNode
    rw [Node.nodeAt, isNode]
    rfl

section Pairs

variable (inner : Normalizer) (ctx : Context) (n : Node)

theorem writes_optionalParameter :
    Writes (optionalParameter inner ctx n) Parameter.item (OptionalPair inner ctx n) where
  sound isPair := by
    cases isPair with
    | pair named hasDefault normal =>
      rw [optionalParameter, named, ok_bind, nodeAt_eq_ok.2 hasDefault, ok_bind, normal,
        Parameter.item]
      rfl
  complete found := by
    obtain ⟨text, named, found⟩ := bind_eq_ok.1 found
    obtain ⟨default, isDefault, found⟩ := bind_eq_ok.1 found
    obtain ⟨f, normal, -⟩ := bind_eq_ok.1 found
    exact ⟨.optional text f, .pair named (nodeAt_eq_ok.1 isDefault) normal⟩

theorem keywordParameter_eq {label keyword : String} {default : Option Form}
    (named : name (n.slot 0) = .ok label) (isLabel : IsLabel label keyword)
    (isDefault : value? inner ctx (n.slot 1) = .ok default) :
    keywordParameter inner ctx n = .ok (Parameter.keyword keyword default).item := by
  rw [keywordParameter, named, ok_bind, isDefault, isLabel.withoutColons_eq, Parameter.item]
  cases default <;> rfl

theorem writes_keywordParameter :
    Writes (keywordParameter inner ctx n) Parameter.item (KeywordPair inner ctx n) where
  sound isPair := by
    cases isPair with
    | bare named isLabel noDefault =>
      apply keywordParameter_eq inner ctx n named isLabel
      obtain absent | absent := eq_of_isAbsent noDefault <;> rw [absent] <;> rfl
    | pair named isLabel hasDefault normal =>
      apply keywordParameter_eq inner ctx n named isLabel
      rw [hasDefault]
      exact map_eq_ok.2 ⟨_, normal, rfl⟩
  complete found := by
    obtain ⟨label, named, found⟩ := bind_eq_ok.1 found
    obtain ⟨default, isDefault, -⟩ := bind_eq_ok.1 found
    have isLabel := isLabel_withoutColons label
    cases isChild : n.slot 1 with
    | node tag children =>
      rw [isChild] at isDefault
      obtain ⟨f, normal, -⟩ := map_eq_ok.1 isDefault
      have hasDefault : n.slot 1 = Node.toRaw ⟨tag, children⟩ := isChild
      exact ⟨_, .pair named isLabel hasDefault normal⟩
    | _ =>
      simp only [isChild, value?] at isDefault
      split at isDefault
      · rename_i absent
        rw [← isChild] at absent
        exact ⟨_, .bare named isLabel absent⟩
      · cases isDefault

end Pairs

end RubyNormalForm
