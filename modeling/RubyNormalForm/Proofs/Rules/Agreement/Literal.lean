import RubyNormalForm.Proofs.Rules.Agreement.Definition

/-!
# Agreement of operators, numbers, keywords and collections

Operators look at the tags and the numbers of their operands, which are the same in both
runs. A keyword that names the line or the encoding is the one place where a line or an
encoding becomes an item.
-/

namespace RubyNormalForm.Rules

variable {k : Likeness} {p : Raw → Prop}

/-! ### Operators -/

/-- A left operand of another kind is kept whole. -/
theorem chain_of_differs {tag leftTag : String} (differs : ¬(leftTag == tag) = true) (right : Form)
    (items : List Item) (line : Option Nat) (comments : Option String) :
    chain tag right (.node leftTag items line comments) =
      .of tag [.node leftTag items line comments, right.toItem] := by
  rw [chain.eq_def]
  simp only [differs]
  rfl

/-- Both chains are taken apart at the same places. The induction is on the left operand: a chain
of the same kind goes on in its second item, if that is a node. -/
theorem like_chain (tag : String) {right right' : Form} (rights : right.Like k right')
    (x : Item) {y : Item} (h : Item.Like k x y) :
    (chain tag right x).Like k (chain tag right' y) := by
  have last : List.Forall₂ (Item.Like k) [right.toItem] [right'.toItem] := by simp [rights]
  have whole : (Form.of tag [x, right.toItem]).Like k (Form.of tag [y, right'.toItem]) :=
    Form.like_of.2 ⟨rfl, .cons h last⟩
  cases h with
  | str same => exact whole
  | scalar plain =>
    cases x with
    | node leftTag items line comments => cases plain
    | _ => exact whole
  | node inside lines =>
    rename_i leftTag items items' line line' comments
    by_cases same : (leftTag == tag) = true
    · cases inside with
      | nil => simpa only [chain, ite_self] using whole
      | cons firsts tail =>
        cases tail with
        | nil => simpa only [chain, ite_self] using whole
        | cons seconds more =>
          cases more with
          | cons third others => simpa only [chain, ite_self] using whole
          | nil =>
            rename_i first first' second second'
            have pairs : ((Form.of tag [first, second]).withLine line).Like k
                ((Form.of tag [first', second']).withLine line') :=
              Form.Like.withLine (by simp [firsts, seconds]) lines
            have joined : (Form.of tag [_, right.toItem]).Like k (Form.of tag [_, right'.toItem]) :=
              Form.like_of.2 ⟨rfl, .cons (Form.like_toItem.2 pairs) last⟩
            have further := like_chain tag rights second seconds
            cases seconds with
            | node inside' lines' =>
              simp only [chain, same, if_true]
              exact Form.Like.withLine (by simp [firsts, further]) lines
            | str same' => simpa only [chain, same, if_true] using joined
            | scalar plain =>
              cases second with
              | node leftTag items line comments => cases plain
              | _ => simpa only [chain, same, if_true] using joined
    · rw [chain_of_differs same, chain_of_differs same]
      exact whole

theorem like_boolean (tag : String) (grouped : Bool) {left left' right right' : Form}
    (lefts : left.Like k left') (rights : right.Like k right') :
    (boolean tag grouped left right).Like k (boolean tag grouped left' right') := by
  simp only [boolean]
  split
  · simp [lefts, rights]
  · exact like_chain tag rights left.toItem (Form.like_toItem.2 lefts)

theorem like_binary (operator : String) (grouped : Bool) {left left' right right' : Form}
    (lefts : left.Like k left') (rights : right.Like k right') :
    (binary operator grouped left right).Like k (binary operator grouped left' right') := by
  simp only [binary, like_isRegexp lefts, like_isRegexp rights]
  split
  · exact like_boolean "and" grouped lefts rights
  · split
    · exact like_boolean "or" grouped lefts rights
    · split
      · simp [lefts, rights]
      · split
        · simp [lefts, rights]
        · split
          · have call := Form.Like.withLine (f := .of "call" [left.toItem, .sym "=~", right.toItem])
              (g := .of "call" [left'.toItem, .sym "=~", right'.toItem])
              (by simp [lefts, rights]) lefts.line
            simp [call]
          · simp [lefts, rights]

theorem binaryRule_respects (hp : Raw.Hereditary p) : Rule.Respects binaryRule k p := by
  intro inner each ctx ctx' alike n hn
  refine .bind_same fun leftNode found => ?_
  refine (each ctx ctx' alike leftNode (hp.nodeAt hn found)).bind fun left left' lefts => ?_
  refine .bind_same fun operator _ => ?_
  refine agree_child each alike hp hn fun right right' rights => .pure ?_
  exact like_binary operator _ lefts rights

/-- The opposite of a number is a number, whatever stands around it. -/
theorem isScalar_negated? {x y : Item} (found : negated? x = some y) : y.isScalar = true := by
  cases x <;> simp only [negated?, reduceCtorEq] at found <;> try split at found
  all_goals
    cases found
    rfl

theorem like_negated? {x y : Item} (h : Item.Like k x y) :
    Option.Rel (Item.Like k) (negated? x) (negated? y) := by
  cases h with
  | node inside lines => exact .none
  | str same => exact .none
  | scalar plain =>
    cases found : negated? x with
    | none => exact .none
    | some opposite => exact .some (.scalar (isScalar_negated? found))

theorem like_negatedLiteral? {f g : Form} (h : f.Like k g) :
    Option.Rel (Form.Like k) (negatedLiteral? f) (negatedLiteral? g) := by
  obtain ⟨tag, items, line, comments⟩ := f
  obtain ⟨tag', items', line', comments'⟩ := g
  obtain ⟨rfl, inside, lines, rfl⟩ := h
  simp only [negatedLiteral?, Form.is]
  cases inside with
  | nil => split <;> simp_all
  | cons first others =>
    cases tag == "lit" with
    | false => exact .none
    | true =>
      refine optionRel_map (like_negated? first) fun x y related => ?_
      exact ⟨rfl, .cons related others, lines, rfl⟩

theorem like_unary (operator : String) {operand operand' : Option Form}
    (operands : Option.Rel (Form.Like k) operand operand') :
    (unary operator operand).Like k (unary operator operand') := by
  simp only [unary]
  split
  · simp [operands]
  · split
    · cases operands with
      | none => simp
      | some related => exact optionRel_getD (like_negatedLiteral? related) (by simp [related])
    · simp [operands]

theorem unaryRule_respects (hp : Raw.Hereditary p) : Rule.Respects unaryRule k p := by
  intro inner each ctx ctx' alike n hn
  refine .bind_same fun operator _ => ?_
  refine (agree_value? each alike (hp.slot hn 1)).bind fun f g operands => .pure ?_
  exact like_unary operator operands

theorem definedRule_respects (hp : Raw.Hereditary p) : Rule.Respects definedRule k p := by
  intro inner each ctx ctx' alike n hn
  refine (agree_value? each alike (hp.slot hn 0)).bind fun f g same => .pure ?_
  simp [same]

/-! ### Numbers, variables and keywords -/

theorem numberRule_respects {kind : NumberKind} {read : String → Option Item}
    (scalar : ∀ text item, read text = some item → item.isScalar = true) :
    Rule.Respects (numberRule kind read) k p := by
  intro inner each ctx ctx' alike n hn
  refine .bind_same fun t _ => ?_
  cases found : read t.text with
  | none => exact .error _
  | some item => exact .pure (by simpa [literal] using .scalar (scalar _ _ found))

theorem isScalar_map {α : Type} {value : Option α} {make : α → Item}
    (scalar : ∀ a, (make a).isScalar = true) (item : Item) (found : value.map make = some item) :
    item.isScalar = true := by
  obtain ⟨a, -, rfl⟩ := Option.map_eq_some_iff.1 found
  exact scalar a

theorem isScalar_ofInteger (n : Int) : (Item.ofInteger n).isScalar = true := by
  simp only [Item.ofInteger]
  split <;> rfl

theorem integerRule_respects : Rule.Respects integerRule k p :=
  numberRule_respects fun _ => isScalar_map isScalar_ofInteger

theorem floatRule_respects : Rule.Respects floatRule k p :=
  numberRule_respects fun _ => isScalar_map fun _ => rfl

theorem rationalRule_respects : Rule.Respects rationalRule k p :=
  numberRule_respects fun _ => isScalar_map fun _ => rfl

theorem imaginaryRule_respects : Rule.Respects imaginaryRule k p :=
  numberRule_respects fun _ => isScalar_map fun _ => rfl

theorem characterRule_respects : Rule.Respects characterRule k p := by
  intro inner each ctx ctx' alike n hn
  refine .bind_same fun t _ => .pure ?_
  exact Form.like_of.2 ⟨rfl, .cons (.str (alike.decode .double _)) .nil⟩

theorem labelRule_respects : Rule.Respects labelRule k p := by
  intro inner each ctx ctx' alike n hn
  exact .bind_same fun t _ => .pure (by simp [literal])

theorem agree_backReference (text : String) :
    Agree (Form.Like k) (backReference text) (backReference text) := by
  refine .same fun f found => ?_
  simp only [backReference] at found
  split at found
  · split at found <;> cases found <;> simp
  · cases found

/-- A token whose kind is that of keywords is a keyword. -/
theorem isKeyword_of_token {n : Raw.Node} {t : Token} (found : token n = .ok t)
    (isWord : t.kind = "kw") : n.isKeyword t.text = true := by
  obtain ⟨tag, text, -⟩ := token_eq_ok found
  have isTag : n.tag = "@kw" := by
    rw [tag, isWord]
    rfl
  have isToken : n.isToken = true := by
    rw [Raw.Node.isToken, isTag]
    rfl
  simp [Raw.Node.isKeyword, Raw.Node.is, isTag, Raw.Node.tokenText?, isToken, text]

theorem agree_keyword {ctx ctx' : Context} (alike : Context.Like k p ctx ctx') {n : Raw.Node}
    (hn : p n.toRaw) (line : Nat) {word : String} (isWord : n.isKeyword word = true) :
    Agree (Form.Like k) (keyword ctx (ctx.line line) word)
      (keyword ctx' (ctx'.line line) word) := by
  simp only [keyword]
  split
  · exact .ok (by simp)
  · split
    · rw [alike.filename]
      exact .ok (Form.like_of.2 ⟨rfl, .cons (.str (alike.verbatim _)) .nil⟩)
    · split
      · rename_i isLine
        rw [eq_of_beq isLine] at isWord
        simp only [Context.line, alike.lineWord n hn isWord]
        exact .ok (by simp [literal])
      · split
        · rename_i isEncoding
          rw [eq_of_beq isEncoding] at isWord
          rw [alike.encodingWord n hn isWord]
          exact .ok (by simp)
        · exact .error _

/-- A keyword can give a token its own line or encoding as a value, and only then do the
surroundings have to agree on them. -/
theorem agree_readToken (hp : Raw.Hereditary p) {ctx ctx' : Context}
    (alike : Context.Like k p ctx ctx') {n : Raw.Node} (hn : p n.toRaw) {t : Token}
    (found : token n = .ok t) :
    Agree (Form.Like k) (readToken ctx t) (readToken ctx' t) := by
  have lined {x y : Result Form} (h : Agree (Form.Like k) x y) :
      Agree (Form.Like k) (x >>= fun f => Except.ok (f.withLine (some (ctx.line t.line))))
        (y >>= fun f => Except.ok (f.withLine (some (ctx'.line t.line)))) :=
    h.bind fun f g same => .ok (same.withLine (.some (like_tokenLine hp alike hn found)))
  simp only [readToken]
  split
  · exact lined (.ok (by simp))
  · split
    · exact lined (.ok (by simp))
    · split
      · exact lined (agree_backReference t.text)
      · split
        · rename_i isWord
          exact lined (agree_keyword alike hn t.line (isKeyword_of_token found (eq_of_beq isWord)))
        · exact .error _

theorem tokenRule_respects (hp : Raw.Hereditary p) : Rule.Respects tokenRule k p := by
  intro inner each ctx ctx' alike n hn
  exact .bind_same fun t found => agree_readToken hp alike hn found

theorem referenceRule_respects (hp : Raw.Hereditary p) : Rule.Respects referenceRule k p := by
  intro inner each ctx ctx' alike n hn
  refine .bind_same fun m inside => .bind_same fun t found => ?_
  exact agree_readToken hp alike (hp.nodeAt hn inside) found

/-! ### Arrays, hashes and ranges -/

theorem arrayRule_respects (hp : Raw.Hereditary p) : Rule.Respects arrayRule k p := by
  intro inner each ctx ctx' alike n hn
  have slot := hp.slot hn 0
  have listed := (agree_arguments each alike hp slot).map fun fs gs => like_array
  simp only [arrayRule]
  generalize n.slot 0 = child at slot listed
  cases child with
  | node tag children =>
    dsimp only
    split
    · exact listed
    · exact each ctx ctx' alike ⟨tag, children⟩ slot
  | _ => exact listed

section Hash

variable (hp : Raw.Hereditary p) {inner : Normalizer} (each : inner.Respects k p)
variable {ctx ctx' : Context} (alike : Context.Like k p ctx ctx')
include hp each alike

theorem agree_hashEntry {n : Raw.Node} (hn : p n.toRaw) :
    Agree (List.Forall₂ (Item.Like k)) (hashEntry inner ctx n) (hashEntry inner ctx' n) := by
  simp only [hashEntry]
  split
  · refine agree_child each alike hp hn fun key key' keys => ?_
    refine (agree_value? each alike (hp.slot hn 1)).bind fun f g values => .pure ?_
    simp [keys, values]
  · exact (each ctx ctx' alike n hn).bind fun f g same => .pure (by simp [same])

theorem agree_hashItems {nodes : List Raw.Node} (hn : ∀ n ∈ nodes, p n.toRaw) :
    Agree (List.Forall₂ (Item.Like k)) (hashItems inner ctx nodes)
      (hashItems inner ctx' nodes) := by
  induction nodes with
  | nil => exact .ok .nil
  | cons n rest ih =>
    refine (agree_hashEntry hp each alike (hn n (by simp))).bind fun xs ys first => ?_
    refine (ih fun m member => hn m (by simp [member])).bind fun xs' ys' others => .pure ?_
    exact List.rel_append first others

end Hash

theorem hashRule_respects (hp : Raw.Hereditary p) : Rule.Respects hashRule k p := by
  intro inner each ctx ctx' alike n hn
  refine .bind_same fun nodes found => ?_
  refine (agree_hashItems hp each alike (hp.nodesFrom hn found)).bind fun xs ys same => .pure ?_
  simp [same]

theorem like_integerLiteral? {f g : Option Form} (h : Option.Rel (Form.Like k) f g) :
    integerLiteral? f = integerLiteral? g := by
  cases h with
  | none => rfl
  | some related =>
    rename_i f g
    have inside := related.items
    simp only [integerLiteral?, related.is]
    generalize f.items = xs, g.items = ys at inside
    cases inside with
    | nil => rfl
    | cons first others =>
      cases first with
      | node inside lines => cases g.is "lit" <;> rfl
      | str same => cases g.is "lit" <;> rfl
      | scalar plain => rfl

theorem like_range (exclusive : Bool) {first first' last last' : Option Form}
    (firsts : Option.Rel (Form.Like k) first first') (lasts : Option.Rel (Form.Like k) last last') :
    (range exclusive first last).Like k (range exclusive first' last') := by
  simp only [range, like_integerLiteral? firsts, like_integerLiteral? lasts]
  split
  · refine Form.Like.withLine ?_ ?_
    · exact Form.like_of.2 ⟨rfl, .cons (.scalar rfl) .nil⟩
    · cases firsts with
      | none => exact .none
      | some related => exact related.line
  · simp [firsts, lasts]

theorem rangeRule_respects (hp : Raw.Hereditary p) (exclusive : Bool) :
    Rule.Respects (rangeRule exclusive) k p := by
  intro inner each ctx ctx' alike n hn
  refine (agree_value? each alike (hp.slot hn 0)).bind fun first first' firsts => ?_
  refine (agree_value? each alike (hp.slot hn 1)).bind fun last last' lasts => .pure ?_
  exact like_range exclusive firsts lasts

end RubyNormalForm.Rules
