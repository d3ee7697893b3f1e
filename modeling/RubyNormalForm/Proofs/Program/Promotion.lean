import RubyNormalForm.Proofs.Rules.Agreement.Program
import RubyNormalForm.Proofs.Rules.Folding
import RubyNormalForm.Proofs.Tree.Nodes
import RubyNormalForm.Proofs.Utf8

/-!
# Strings that are promoted to UTF-8

In a source that is not UTF-8, a text with a wide escape is promoted when its bytes are
well-formed text past ASCII. That is asked of each text as it is read; texts that are joined
later keep the encoding of the first one with any bytes. A promoted string is therefore known
to begin well, and is well-formed exactly as far as the texts joined to its beginning are.
-/

namespace RubyNormalForm

/-! ### Strings that are joined from texts -/

/-- A string that is read from one text, or joined from such strings. -/
inductive ByteString.Joined (cs : Charset) : ByteString → Prop
  | read (q : Quoting) (text : String) : Joined cs (q.decode cs text)
  | append {s t : ByteString} (first : Joined cs s) (second : Joined cs t) :
      Joined cs (s.append t)

/-- The bytes of several texts in order, each read by itself. -/
def Charset.readAll (cs : Charset) (texts : List (Quoting × String)) : List UInt8 :=
  texts.flatMap fun text => (text.1.decode cs text.2).bytes

theorem Charset.readAll_append (cs : Charset) (texts others : List (Quoting × String)) :
    cs.readAll (texts ++ others) = cs.readAll texts ++ cs.readAll others :=
  List.flatMap_append

theorem Charset.isValid_readAll {cs : Charset} {texts : List (Quoting × String)}
    (valid : ∀ text ∈ texts, Utf8.isValid (text.1.decode cs text.2).bytes = true) :
    Utf8.isValid (cs.readAll texts) = true :=
  Utf8.isValid_flatMap valid

/-- A text that leaves the encoding of its source is a double-quoted one with a wide escape,
and denotes well-formed text past ASCII. -/
theorem Quoting.eq_double_of_promoted {q : Quoting} {cs : Charset} {text : String}
    (foreign : cs.encoding ≠ .utf8) (promoted : (q.decode cs text).encoding = .utf8) :
    q = .double ∧ Literal.hasWideEscape (Utf8.ofText text) = true ∧
      cs.extraCompatible = false ∧ Charset.isWideText (cs.doubleQuoted text).bytes = true := by
  cases q with
  | double =>
    simp only [decode, Charset.doubleQuoted, Charset.encodingOf] at promoted ⊢
    split at promoted
    · rename_i asked
      simp only [Bool.and_eq_true, Bool.not_eq_true'] at asked
      exact ⟨trivial, asked.1.1, asked.1.2, asked.2⟩
    · exact absurd promoted foreign
  | _ => exact absurd promoted foreign

namespace ByteString.Joined

variable {cs : Charset} {s : ByteString}

theorem exists_texts (h : s.Joined cs) : ∃ texts, s.bytes = cs.readAll texts := by
  induction h with
  | read q text => exact ⟨[(q, text)], by simp [Charset.readAll]⟩
  | append first second ih ih' =>
    obtain ⟨texts, isFirst⟩ := ih
    obtain ⟨others, isSecond⟩ := ih'
    exact ⟨texts ++ others, by rw [Charset.readAll_append, ← isFirst, ← isSecond]; rfl⟩

/-- The first text with any bytes is the one that was promoted. -/
theorem exists_promoted (h : s.Joined cs) (foreign : cs.encoding ≠ .utf8)
    (promoted : s.encoding = .utf8) :
    ∃ (head : String) (rest : List (Quoting × String)),
      s.bytes = (cs.doubleQuoted head).bytes ++ cs.readAll rest ∧
        (cs.doubleQuoted head).encoding = .utf8 := by
  induction h with
  | read q text =>
    obtain ⟨rfl, -⟩ := Quoting.eq_double_of_promoted foreign promoted
    exact ⟨text, [], (List.append_nil _).symm, promoted⟩
  | append first second ih ih' =>
    rename_i s t
    simp only [ByteString.append] at promoted ⊢
    split at promoted
    · rename_i empty
      obtain ⟨head, rest, isText, isPromoted⟩ := ih' promoted
      exact ⟨head, rest, by rw [List.isEmpty_iff.1 empty, List.nil_append, isText], isPromoted⟩
    · obtain ⟨head, rest, isText, isPromoted⟩ := ih promoted
      obtain ⟨others, isSecond⟩ := second.exists_texts
      refine ⟨head, rest ++ others, ?_, isPromoted⟩
      rw [Charset.readAll_append, ← List.append_assoc, ← isText, ← isSecond]

end ByteString.Joined

/-! ### Strings in a normal form -/

/-- Nothing but that every string is joined from texts of the source. -/
def Likeness.joined (cs : Charset) : Likeness where
  line _ _ := True
  encoding _ _ := True
  text := ByteString.Joined cs
  append := .append

theorem like_ofSource_joined (config : Config) (source : Source) :
    Context.Like (.joined ⟨source.encoding, config.extraCompatible⟩) (fun _ => True)
      (.ofSource source config) (.ofSource source config) where
  filename := rfl
  inMethodBody := rfl
  position _ := trivial
  literal _ _ := trivial
  lineWord _ _ _ := rfl
  encodingWord _ _ _ := rfl
  read := .read

/-- Every string of a normal form is joined from texts, each read by itself. -/
theorem normalize_joined {config : Config} {source : Source} {r : Raw} {f : Form}
    (succeeds : normalize config source r = .ok (some f)) {g : Form} (member : g ∈ f.nodes)
    {s : ByteString} (isString : .str s ∈ g.items) :
    s.Joined ⟨source.encoding, config.extraCompatible⟩ := by
  have agree := agree_normalize Raw.hereditary_true (like_ofSource_joined config source) (r := r)
    trivial
  rw [succeeds] at agree
  obtain ⟨same⟩ := agree.of_ok
  obtain ⟨_, alike⟩ := same.exists_like member
  obtain ⟨_, joined⟩ := alike.exists_string isString
  exact joined.text

/-- In a source that is not UTF-8, a string that is tagged UTF-8 begins with a double-quoted
text that was promoted: it has a wide escape, literals need not be kept in the encoding of the
source, and it denotes well-formed text past ASCII. The string is well-formed if and only if
the texts joined to this one are, and so it is if each of them is by itself. -/
theorem normalize_promoted {config : Config} {source : Source} {r : Raw} {f : Form}
    (foreign : source.encoding ≠ .utf8) (succeeds : normalize config source r = .ok (some f))
    {g : Form} (member : g ∈ f.nodes) {s : ByteString} (isString : .str s ∈ g.items)
    (promoted : s.encoding = .utf8) :
    let cs : Charset := ⟨source.encoding, config.extraCompatible⟩
    config.extraCompatible = false ∧
    ∃ (head : String) (rest : List (Quoting × String)),
      s.bytes = (cs.doubleQuoted head).bytes ++ cs.readAll rest ∧
      Literal.hasWideEscape (Utf8.ofText head) = true ∧
      Charset.isWideText (cs.doubleQuoted head).bytes = true ∧
      Utf8.isValid s.bytes = Utf8.isValid (cs.readAll rest) ∧
      ((∀ text ∈ rest, Utf8.isValid (text.1.decode cs text.2).bytes = true) →
        Utf8.isValid s.bytes = true) := by
  intro cs
  obtain ⟨head, rest, isText, isPromoted⟩ :=
    (normalize_joined succeeds member isString).exists_promoted foreign promoted
  have decoded : (Quoting.double.decode cs head).encoding = .utf8 := isPromoted
  obtain ⟨-, escape, mayLeave, wide⟩ := Quoting.eq_double_of_promoted foreign decoded
  have begins : Utf8.isValid (cs.doubleQuoted head).bytes = true := by
    rw [Charset.isWideText, Bool.and_eq_true] at wide
    exact wide.1
  have decides : Utf8.isValid s.bytes = Utf8.isValid (cs.readAll rest) := by
    rw [isText]
    exact Utf8.isValid_append begins _
  refine ⟨mayLeave, head, rest, isText, escape, wide, decides, fun valid => ?_⟩
  rw [decides]
  exact Charset.isValid_readAll valid

/-! ### Adjacent strings -/

/-- A double-quoted string with the given text. -/
def quotedText (text : String) : Raw.Node :=
  ⟨"string_literal", [.node "string_content"
    [.node "@tstring_content" [.str text, .pos 1 1, .str "\x22"]]]⟩

/-- A program of two adjacent strings. -/
def adjacentStrings (first second : String) : Raw :=
  .node "program" [.node Raw.listTag
    [.node "string_concat" [(quotedText first).toRaw, (quotedText second).toRaw]]]

theorem normalizeNode_quotedText (ctx : Context) (text : String) :
    normalizeNode ctx (quotedText text) =
      .ok ⟨"str", [.str (ctx.charset.doubleQuoted text)], some (ctx.line 1), none⟩ := by
  have has : Rules.HasParts (quotedText text) "string_literal"
      [.node "@tstring_content" [.str text, .pos 1 1, .str "\x22"]] := ⟨rfl, rfl⟩
  rw [Rules.normalizeNode_string has]
  rfl

/-- The texts of adjacent strings are read by themselves and then joined. -/
theorem normalize_adjacentStrings (config : Config) (source : Source) (first second : String) :
    let cs : Charset := ⟨source.encoding, config.extraCompatible⟩
    normalize config source (adjacentStrings first second) =
      .ok (some ⟨"str", [.str ((cs.doubleQuoted first).append (cs.doubleQuoted second))],
        some (1 + source.lineOffset), none⟩) := by
  intro cs
  let ctx : Context := .ofSource source config
  let pair : Raw.Node :=
    ⟨"string_concat", [(quotedText first).toRaw, (quotedText second).toRaw]⟩
  have isLocal : Rule.LocalAt Rules.concatenationRule ctx pair := by
    intro inner inner' agree
    exact Rules.concatenationRule_congr agree ctx (Nat.le_refl _)
  have found : rule? pair.tag = some Rules.concatenationRule := rfl
  have firstAt : pair.nodeAt 0 = .ok (quotedText first) := rfl
  have secondAt : pair.nodeAt 1 = .ok (quotedText second) := rfl
  have joined : normalizeNode ctx pair =
      .ok ⟨"str", [.str ((cs.doubleQuoted first).append (cs.doubleQuoted second))],
        some (1 + source.lineOffset), none⟩ := by
    rw [normalizeNode_of_localAt found isLocal]
    simp only [Rules.concatenationRule, firstAt, secondAt, ok_bind, normalizeNode_quotedText]
    rfl
  have single : Rules.body normalizeNode ctx (.node Raw.listTag [pair.toRaw]) =
      (normalizeNode ctx pair).map some :=
    Rules.body_single _ _ (by simp [pair]) (.inl rfl)
  have isProgram : normalize config source (adjacentStrings first second) = (do
      let body ← Rules.body normalizeNode ctx (.node Raw.listTag [pair.toRaw])
      return body.map Form.settleLines) := rfl
  rw [isProgram, single, joined]
  rfl

/-- A promoted string to which plain ASCII is joined. -/
theorem ascii_promoted :
    let bytes : List UInt8 := [0xC3, 0xA9, 0x61]
    normalize {} ⟨"a.rb", 1, .binary⟩ (adjacentStrings "\\u00e9" "a") =
      .ok (some ⟨"str", [.str ⟨bytes, .utf8⟩], some 1, none⟩) ∧
    ∃ (head : String) (rest : List (Quoting × String)),
      let cs : Charset := ⟨.binary, false⟩
      bytes = (cs.doubleQuoted head).bytes ++ cs.readAll rest ∧
      Charset.isWideText (cs.doubleQuoted head).bytes = true ∧
      Utf8.isValid bytes = Utf8.isValid (cs.readAll rest) := by
  intro bytes
  let s : ByteString := ⟨bytes, .utf8⟩
  have joined : (Charset.doubleQuoted ⟨.binary, false⟩ "\\u00e9").append
      (Charset.doubleQuoted ⟨.binary, false⟩ "a") = s := by decide +kernel
  have succeeds : normalize {} ⟨"a.rb", 1, .binary⟩ (adjacentStrings "\\u00e9" "a") =
      .ok (some ⟨"str", [.str s], some 1, none⟩) := by
    rw [← joined]
    exact normalize_adjacentStrings {} ⟨"a.rb", 1, .binary⟩ _ _
  obtain ⟨-, head, rest, isText, -, wide, decides, -⟩ :=
    normalize_promoted (by decide) succeeds (Form.mem_nodes_self _) List.mem_cons_self rfl
  exact ⟨succeeds, head, rest, isText, wide, decides⟩

/-- A byte that belongs to no character is joined to a promoted string, which stays tagged
UTF-8. In one text with the same escapes it keeps the string from being promoted. -/
theorem broken_promoted :
    let bytes : List UInt8 := [0xC3, 0xA9, 0xFF]
    normalize {} ⟨"a.rb", 1, .binary⟩ (adjacentStrings "\\u00e9" "\\xff") =
      .ok (some ⟨"str", [.str ⟨bytes, .utf8⟩], some 1, none⟩) ∧
    normalize {} ⟨"a.rb", 1, .binary⟩ (adjacentStrings "\\u00e9\\xff" "") =
      .ok (some ⟨"str", [.str ⟨bytes, .binary⟩], some 1, none⟩) ∧
    Utf8.isValid bytes = false := by
  intro bytes
  have apart : (Charset.doubleQuoted ⟨.binary, false⟩ "\\u00e9").append
      (Charset.doubleQuoted ⟨.binary, false⟩ "\\xff") = ⟨bytes, .utf8⟩ := by decide +kernel
  have together : (Charset.doubleQuoted ⟨.binary, false⟩ "\\u00e9\\xff").append
      (Charset.doubleQuoted ⟨.binary, false⟩ "") = ⟨bytes, .binary⟩ := by decide +kernel
  rw [← apart, ← together]
  exact ⟨normalize_adjacentStrings {} ⟨"a.rb", 1, .binary⟩ _ _,
    normalize_adjacentStrings {} ⟨"a.rb", 1, .binary⟩ _ _, by decide +kernel⟩

end RubyNormalForm
