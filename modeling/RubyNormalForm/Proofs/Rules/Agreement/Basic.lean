import RubyNormalForm.Proofs.Raw.Hereditary
import RubyNormalForm.Proofs.Rules.Outcome
import RubyNormalForm.Proofs.Tree.Likeness

/-!
# Two runs of the normaliser

The same raw tree is normalised in two surroundings, which may differ in the number of the
first line and in how literals are tagged. Two such runs agree if both fail in the same way,
or give forms that are alike. A rule respects a likeness if its two runs agree whenever the
two runs on smaller nodes do; what every rule respects, the normaliser respects.

A hereditary property `p` of raw trees says what is known of the tree, so that each part that
a rule reaches is known to have it too.
-/

namespace RubyNormalForm

/-- Two results agree: the same failure, or related values. -/
inductive Agree {α β : Type} (rel : α → β → Prop) : Result α → Result β → Prop
  | ok {a : α} {b : β} (related : rel a b) : Agree rel (.ok a) (.ok b)
  | error (e : Error) : Agree rel (.error e) (.error e)

namespace Agree

variable {α β γ δ : Type} {rel : α → β → Prop} {rel' : γ → δ → Prop}

theorem pure {a : α} {b : β} (related : rel a b) : Agree rel (pure a) (pure b) :=
  .ok related

theorem bind {x : Result α} {y : Result β} {f : α → Result γ} {g : β → Result δ}
    (first : Agree rel x y) (next : ∀ a b, rel a b → Agree rel' (f a) (g b)) :
    Agree rel' (x >>= f) (y >>= g) := by
  cases first with
  | ok related => exact next _ _ related
  | error e => exact .error e

/-- Both runs begin with the same step. -/
theorem bind_same {x : Result α} {f : α → Result γ} {g : α → Result δ}
    (next : ∀ a, x = .ok a → Agree rel' (f a) (g a)) : Agree rel' (x >>= f) (x >>= g) := by
  cases x with
  | ok a => exact next a rfl
  | error e => exact .error e

theorem map {x : Result α} {y : Result β} {f : α → γ} {g : β → δ} (h : Agree rel x y)
    (next : ∀ a b, rel a b → rel' (f a) (g b)) : Agree rel' (x.map f) (y.map g) := by
  cases h with
  | ok related => exact .ok (next _ _ related)
  | error e => exact .error e

theorem same {rel : α → α → Prop} {x : Result α} (related : ∀ a, x = .ok a → rel a a) :
    Agree rel x x := by
  cases x with
  | ok a => exact .ok (related a rfl)
  | error e => exact .error e

theorem map_eq {ε : Type} {x : Result α} {y : Result β} {f : α → ε} {g : β → ε}
    (h : Agree rel x y) (same : ∀ a b, rel a b → f a = g b) : x.map f = y.map g := by
  cases h with
  | ok related => exact congrArg Except.ok (same _ _ related)
  | error e => rfl

theorem of_ok {a : α} {b : β} (h : Agree rel (.ok a) (.ok b)) : rel a b := by
  cases h with
  | ok related => exact related

end Agree

/-! ### Surroundings that are alike -/

/-- Two surroundings of trees with the property `p`. They differ at most in the lines that
positions stand for and in the encodings of literals, and wherever a tree names its line or
its encoding, not even there. -/
structure Context.Like (k : Likeness) (p : Raw → Prop) (ctx ctx' : Context) : Prop where
  filename : ctx.filename = ctx'.filename
  inMethodBody : ctx.inMethodBody = ctx'.inMethodBody
  position : ∀ {line column}, p (.pos line column) → k.line (ctx.line line) (ctx'.line line)
  literal : ∀ wide bytes, k.encoding (ctx.charset.encodingOf wide bytes)
    (ctx'.charset.encodingOf wide bytes)
  lineWord : ∀ n : Raw.Node, p n.toRaw → n.isKeyword "__LINE__" = true →
    ctx.lineOffset = ctx'.lineOffset
  encodingWord : ∀ n : Raw.Node, p n.toRaw → n.isKeyword "__ENCODING__" = true →
    ctx.encoding = ctx'.encoding
  /-- What is known of the strings of the first run is so of each text that is read. -/
  read : ∀ (q : Quoting) (text : String), k.text (q.decode ctx.charset text) := by
    intros; trivial

/-- The two runs of the normaliser on a tree agree. -/
def Normalizer.Respects (inner : Normalizer) (k : Likeness) (p : Raw → Prop) : Prop :=
  ∀ ctx ctx', Context.Like k p ctx ctx' → ∀ n, p n.toRaw →
    Agree (Form.Like k) (inner ctx n) (inner ctx' n)

/-- The two runs of the rule agree if those on smaller nodes do. -/
def Rule.Respects (rule : Rule) (k : Likeness) (p : Raw → Prop) : Prop :=
  ∀ inner : Normalizer, inner.Respects k p → (rule inner).Respects k p

namespace Context.Like

variable {k : Likeness} {p : Raw → Prop} {ctx ctx' : Context} (alike : Context.Like k p ctx ctx')
include alike

theorem methodBody : Context.Like k p ctx.methodBody ctx'.methodBody :=
  ⟨alike.filename, rfl, alike.position, alike.literal, alike.lineWord, alike.encodingWord,
    alike.read⟩

theorem scopeBody : Context.Like k p ctx.scopeBody ctx'.scopeBody :=
  ⟨alike.filename, rfl, alike.position, alike.literal, alike.lineWord, alike.encodingWord,
    alike.read⟩

theorem lineOf (hp : Raw.Hereditary p) {n : Raw.Node} (hn : p n.toRaw) :
    Option.Rel k.line (ctx.lineOf n) (ctx'.lineOf n) := by
  simp only [Context.lineOf, Raw.Node.firstLine, Raw.Node.firstPosition]
  cases found : Raw.firstPositionIn n.children with
  | none => exact .none
  | some position => exact .some (alike.position (hp.firstPositionIn (hp.child hn) found))

theorem encoding : k.encoding ctx.encoding ctx'.encoding :=
  alike.literal false []

theorem verbatim (text : String) :
    (ctx.charset.verbatim text).Like k (ctx'.charset.verbatim text) :=
  ⟨rfl, alike.encoding, alike.read .verbatim text⟩

theorem empty : (ByteString.empty ctx.encoding).Like k (.empty ctx'.encoding) :=
  alike.verbatim ""

theorem decode (q : Quoting) (text : String) :
    (q.decode ctx.charset text).Like k (q.decode ctx'.charset text) := by
  cases q with
  | double => exact ⟨rfl, alike.literal _ _, alike.read .double text⟩
  | single opening => exact alike.verbatim _
  | word opening => exact alike.verbatim _
  | verbatim => exact alike.verbatim _
  | regexp opening => exact alike.verbatim _

end Context.Like

/-- A likeness that every rule respects is respected by the normaliser. The induction is on
the size of the node: a rule sees the normaliser on smaller nodes only. -/
theorem normalizeNode_respects {k : Likeness} {p : Raw → Prop} (hp : Raw.Hereditary p)
    (kept : ∀ entry ∈ rules, Rule.Respects entry.2 k p) : normalizeNode.Respects k p := by
  intro ctx ctx' alike n hn
  induction size : n.size using Nat.strongRecOn generalizing ctx ctx' n with
  | ind s ih =>
    subst size
    rw [normalizeNode_eq, normalizeNode_eq]
    rw [normalizeStep, normalizeStep]
    cases found : rule? n.tag with
    | none => exact .error _
    | some rule =>
      refine Agree.map (kept _ (mem_rules found) _ ?_ ctx ctx' alike n hn) ?_
      · intro ctx ctx' alike m hm
        by_cases smaller : m.size < n.size
        · simp only [smaller, if_true]
          exact ih m.size smaller ctx ctx' alike m hm rfl
        · simp only [smaller, if_false]
          exact .error _
      · intro f g same
        have lined := same.withLine (alike.lineOf hp hn)
        have known : (f.withLine (ctx.lineOf n)).line.isNone =
            (g.withLine (ctx'.lineOf n)).line.isNone := by
          rw [← Option.not_isSome, ← Option.not_isSome, optionRel_isSome lined.line]
        simp only [settle, known]
        split
        · exact lined.raiseLines
        · exact lined

namespace Rules

/-! ### Tokens -/

/-- A token names its kind in its tag, and holds its text and its position. -/
theorem token_eq_ok {n : Raw.Node} {t : Token} (found : token n = .ok t) :
    n.tag = "@" ++ t.kind ∧ n.slot 0 = .str t.text ∧ ∃ column, n.slot 1 = .pos t.line column := by
  simp only [token] at found
  split at found
  · rename_i isToken
    simp only [Raw.Node.stringAt, Raw.Node.positionAt] at found
    split at found
    · rename_i text isText
      split at found
      · rename_i line column isPosition
        cases found
        refine ⟨?_, isText, column, isPosition⟩
        simp only [Raw.Node.isToken, beq_iff_eq, List.head?_eq_some_iff] at isToken
        obtain ⟨kind, split⟩ := isToken
        rw [← String.toList_inj]
        simp [split]
      · cases found
    · cases found
  · cases found

/-- The line of a token is that of a position in it. -/
theorem like_tokenLine {k : Likeness} {p : Raw → Prop} (hp : Raw.Hereditary p)
    {ctx ctx' : Context} (alike : Context.Like k p ctx ctx') {n : Raw.Node} (hn : p n.toRaw)
    {t : Token} (found : token n = .ok t) : k.line (ctx.line t.line) (ctx'.line t.line) := by
  obtain ⟨-, -, column, isPosition⟩ := token_eq_ok found
  have slot := hp.slot hn 1
  rw [isPosition] at slot
  exact alike.position slot

section Values

variable {k : Likeness} {p : Raw → Prop} {inner : Normalizer} (each : inner.Respects k p)
variable {ctx ctx' : Context} (alike : Context.Like k p ctx ctx')
include each alike

theorem agree_value? {child : Raw} (hc : p child) :
    Agree (Option.Rel (Form.Like k)) (value? inner ctx child) (value? inner ctx' child) := by
  cases child with
  | node tag children => exact (each ctx ctx' alike ⟨tag, children⟩ hc).map fun _ _ => .some
  | _ =>
    unfold value?
    dsimp only
    split
    · exact .ok .none
    · exact .error _

theorem agree_values {children : List Raw} (hc : ∀ c ∈ children, p c) :
    Agree (List.Forall₂ (Form.Like k)) (values inner ctx children)
      (values inner ctx' children) := by
  induction children with
  | nil => exact .ok .nil
  | cons child rest ih =>
    refine (agree_value? each alike (hc child (by simp))).bind fun f g first => ?_
    refine (ih fun c member => hc c (by simp [member])).bind fun fs gs others => .pure ?_
    cases first with
    | none => exact others
    | some related => exact .cons related others

theorem agree_entries (hp : Raw.Hereditary p) {child : Raw} (hc : p child) :
    Agree (List.Forall₂ (Form.Like k)) (entries inner ctx child) (entries inner ctx' child) := by
  cases child with
  | node tag children =>
    simp only [entries]
    split
    · exact agree_values each alike (hp.child hc)
    · exact (each ctx ctx' alike ⟨tag, children⟩ hc).map fun f g same => .cons same .nil
  | _ =>
    unfold entries
    dsimp only
    split
    · exact .ok .nil
    · exact .error _

theorem agree_arguments (hp : Raw.Hereditary p) {child : Raw} (hc : p child) :
    Agree (List.Forall₂ (Form.Like k)) (arguments inner ctx child)
      (arguments inner ctx' child) :=
  agree_entries each alike hp (hp.insideParens hc)

/-- Both runs begin with the normal form of a child. -/
theorem agree_child (hp : Raw.Hereditary p) {n : Raw.Node} (hn : p n.toRaw) {i : Nat} {α β : Type}
    {rel : α → β → Prop} {f : Form → Result α} {g : Form → Result β}
    (next : ∀ x y, x.Like k y → Agree rel (f x) (g y)) :
    Agree rel (n.nodeAt i >>= fun m => inner ctx m >>= f)
      (n.nodeAt i >>= fun m => inner ctx' m >>= g) :=
  .bind_same fun _ found => (each ctx ctx' alike _ (hp.nodeAt hn found)).bind next

end Values

end Rules

end RubyNormalForm
