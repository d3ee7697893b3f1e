import Mathlib
import RubyNormalForm.Proofs.Rules.Agreement.Program
import RubyNormalForm.Proofs.Tree.Nodes

/-!
# What a normal form owes to its surroundings

The number of the first line reaches a normal form as a shift of its lines, unless the program
asks for a line by name. The encoding of the source and the setting that keeps literals in it
reach the tags of strings and nothing else, unless the program asks for the encoding by name.

Both are statements about two runs, and both are instances of the agreement of two runs: the
first with lines that differ by a constant, the second with encodings that need not be related.
-/

namespace RubyNormalForm

/-- A token that names a keyword occurs in itself. -/
theorem Raw.mentions_of_isKeyword {n : Node} {word : String} (isWord : n.isKeyword word = true) :
    n.toRaw.mentions word = true := by
  simp [mentions, Node.toRaw, nodes, isWord]

/-! ### The number of the first line -/

/-- The node with a number added to every line in it. -/
def Form.shiftLines (d : Nat) (f : Form) : Form :=
  f.relabel (· + d) id

/-- Lines that differ by a constant. -/
def Likeness.shifted (d : Nat) : Likeness where
  line a b := b = a + d
  encoding := Eq

theorem Form.Like.eq_shiftLines {d : Nat} {f g : Form} (h : f.Like (.shifted d) g) :
    f.shiftLines d = g := by
  have same : f.relabel (· + d) id = g.relabel id id :=
    h.relabel_eq (fun _ _ => Eq.symm) fun _ _ => id
  rwa [Form.relabel_id] at same

theorem like_ofSource_firstLine (config : Config) (source : Source) (n : Nat) :
    Context.Like (.shifted (n - 1)) (fun r => r.mentions "__LINE__" = false)
      (.ofSource { source with firstLine := 1 } config)
      (.ofSource { source with firstLine := n } config) where
  filename := rfl
  inMethodBody := rfl
  position _ := rfl
  literal _ _ := rfl
  lineWord n none isWord := by
    rw [Raw.mentions_of_isKeyword isWord] at none
    cases none
  encodingWord _ _ _ := rfl

/-- Where no keyword names the line, a source whose first line has the number `n` fails in the
same way as one that begins at line one, or has the same normal form with `n - 1` added to
every line. Numbering from zero is numbering from one. -/
theorem normalize_shiftLines (config : Config) (source : Source) (r : Raw) :
    (r.mentions "__LINE__" = false → ∀ n, 1 ≤ n →
      normalize config { source with firstLine := n } r =
        (normalize config { source with firstLine := 1 } r).map
          (Option.map (Form.shiftLines (n - 1)))) ∧
    normalize config { source with firstLine := 0 } r =
      normalize config { source with firstLine := 1 } r := by
  constructor
  · intro none n _
    have agree := agree_normalize (Raw.hereditary_not_mentions "__LINE__")
      (like_ofSource_firstLine config source n) none
    have same := agree.map_eq (f := Option.map (Form.shiftLines (n - 1))) (g := id)
      fun f g forms => by
        rw [optionMap_eq (g := id) forms fun _ _ => Form.Like.eq_shiftLines, Option.map_id]
    rw [same, Except.map_id, id]
  · cases r <;> rfl

/-- A sum over two lines, with the name of the file in it, in a file that begins at line ten. -/
theorem sum_shiftLines :
    let token : String → String → Nat → Raw := fun kind text line =>
      .node kind [.str text, .pos line 0]
    let sum : Raw := .node "program" [.node Raw.listTag [.node "binary"
      [.node "var_ref" [token "@kw" "__FILE__" 1], .sym "+", token "@int" "2" 2]]]
    let source : Source := { filename := "a.rb" }
    let f : Form := ⟨"call", [.node "str" [.str (.ofText "a.rb")] (some 1) none, .sym "+",
      .node "lit" [.int 2] (some 2) none], some 1, none⟩
    sum.mentions "__LINE__" = false ∧
      normalize {} { source with firstLine := 1 } sum = .ok (some f) ∧
      normalize {} { source with firstLine := 10 } sum = .ok (some (f.shiftLines 9)) ∧
      normalize {} { source with firstLine := 0 } sum = .ok (some f) := by
  intro token sum source f
  have none : sum.mentions "__LINE__" = false := by decide
  have first : normalize {} { source with firstLine := 1 } sum = .ok (some f) := by cbv
  obtain ⟨shifts, zero⟩ := normalize_shiftLines {} source sum
  have tenth := shifts none 10 (by decide)
  rw [first] at tenth zero
  exact ⟨none, first, tenth, zero⟩

/-! ### The encoding of the source -/

/-- The node with the encodings of all strings in it forgotten. -/
def Form.unencoded (f : Form) : Form :=
  f.relabel id fun _ => .utf8

/-- The same lines, and encodings that need not be related. -/
def Likeness.unencoded : Likeness where
  line := Eq
  encoding _ _ := True

/-- Lines that need not be related, and the given encoding on every string. -/
def Likeness.encodedIn (e : Encoding) : Likeness where
  line _ _ := True
  encoding own _ := own = e

theorem Form.Like.unencoded_eq {f g : Form} (h : f.Like .unencoded g) :
    f.unencoded = g.unencoded :=
  h.relabel_eq (fun _ _ => congrArg id) fun _ _ _ => rfl

theorem like_ofSource_encoding (filename : String) (firstLine : Nat) (config config' : Config)
    (e e' : Encoding) :
    Context.Like .unencoded (fun r => r.mentions "__ENCODING__" = false)
      (.ofSource ⟨filename, firstLine, e⟩ config)
      (.ofSource ⟨filename, firstLine, e'⟩ config') where
  filename := rfl
  inMethodBody := rfl
  position _ := rfl
  literal _ _ := trivial
  lineWord _ _ _ := rfl
  encodingWord n none isWord := by
    rw [Raw.mentions_of_isKeyword isWord] at none
    cases none

/-- A literal leaves the encoding of its source only for UTF-8, and only if it may. -/
theorem encodingOf_eq (cs : Charset) (kept : cs.extraCompatible = true ∨ cs.encoding = .utf8)
    (wide : Bool) (bytes : List UInt8) : cs.encodingOf wide bytes = cs.encoding := by
  rw [Charset.encodingOf]
  obtain compatible | utf8 := kept
  · simp [compatible]
  · rw [utf8, ite_self]

theorem like_ofSource_self {config : Config} {source : Source}
    (kept : config.extraCompatible = true ∨ source.encoding = .utf8) :
    Context.Like (.encodedIn source.encoding) (fun _ => True) (.ofSource source config)
      (.ofSource source config) where
  filename := rfl
  inMethodBody := rfl
  position _ := trivial
  literal wide bytes := encodingOf_eq ⟨source.encoding, config.extraCompatible⟩ kept wide bytes
  lineWord _ _ _ := rfl
  encodingWord _ _ _ := rfl

/-- Where no keyword names the encoding, two sources that differ in their encodings, read with
any settings, fail in the same way or have the same normal form but for the encodings of
strings. Where literals are kept in the encoding of the source, or that is UTF-8 already, every
string of a normal form has it. -/
theorem normalize_unencoded (r : Raw) :
    (r.mentions "__ENCODING__" = false → ∀ (filename : String) (firstLine : Nat)
      (config config' : Config) (e e' : Encoding),
      (normalize config ⟨filename, firstLine, e⟩ r).map (Option.map Form.unencoded) =
        (normalize config' ⟨filename, firstLine, e'⟩ r).map (Option.map Form.unencoded)) ∧
    ∀ (config : Config) (source : Source) (f : Form),
      (config.extraCompatible = true ∨ source.encoding = .utf8) →
      normalize config source r = .ok (some f) →
      ∀ g ∈ f.nodes, ∀ s, .str s ∈ g.items → s.encoding = source.encoding := by
  constructor
  · intro none filename firstLine config config' e e'
    have agree := agree_normalize (Raw.hereditary_not_mentions "__ENCODING__")
      (like_ofSource_encoding filename firstLine config config' e e') none
    exact agree.map_eq fun f g forms => optionMap_eq forms fun _ _ => Form.Like.unencoded_eq
  · intro config source f kept succeeds g member s isString
    have agree := agree_normalize Raw.hereditary_true (like_ofSource_self kept) (r := r) trivial
    rw [succeeds] at agree
    obtain ⟨same⟩ := agree.of_ok
    obtain ⟨other, alike⟩ := same.exists_like member
    obtain ⟨_, same⟩ := alike.exists_encoding isString
    exact same

/-- Two adjacent strings, one with a character past ASCII, in a file of raw bytes that keeps its
literals, and in a UTF-8 file. -/
theorem accent_unencoded :
    let text (content opener : String) : Raw :=
      .node "@tstring_content" [.str content, .pos 1 1, .str opener]
    let quoted (part : Raw) : Raw := .node "string_literal" [.node "string_content" [part]]
    let accent : Raw := .node "program" [.node Raw.listTag
      [.node "string_concat" [quoted (text "é" "'"), quoted (text "a" "\x22")]]]
    let f : Form := ⟨"str", [.str ⟨[0xC3, 0xA9, 0x61], .binary⟩], some 1, none⟩
    accent.mentions "__ENCODING__" = false ∧
      (normalize ⟨false⟩ ⟨"a.rb", 1, .utf8⟩ accent).map (Option.map Form.unencoded) =
        (normalize ⟨true⟩ ⟨"a.rb", 1, .binary⟩ accent).map (Option.map Form.unencoded) ∧
      normalize ⟨true⟩ ⟨"a.rb", 1, .binary⟩ accent = .ok (some f) ∧
      ∀ g ∈ f.nodes, ∀ s, .str s ∈ g.items → s.encoding = .binary := by
  intro text quoted accent f
  have none : accent.mentions "__ENCODING__" = false := by decide
  have succeeds : normalize ⟨true⟩ ⟨"a.rb", 1, .binary⟩ accent = .ok (some f) := by cbv
  obtain ⟨forgotten, carried⟩ := normalize_unencoded accent
  refine ⟨none, forgotten none _ _ _ _ _ _, succeeds, ?_⟩
  exact carried ⟨true⟩ ⟨"a.rb", 1, .binary⟩ f (.inl rfl) succeeds

end RubyNormalForm
