import RubyNormalForm.Literal.Minimal

/-!
# Minimal escapes

In a single-quoted literal and in a word list some characters are reserved: the backslash, the two
delimiters and, in a word list, white space. Writing a backslash before each of them and reading the
literal gives back the text. The backslash is itself reserved, so in what was written every
backslash comes as the first half of a pair, and runs of them of any length are taken apart again
from the left.

Read on any other text, a literal loses nothing but backslashes, and those only where they stand
directly before a reserved character (`Unescapes`).
-/

namespace RubyNormalForm.Literal

/-- The characters that a single-quoted literal with the given opening delimiter reserves. -/
def Reserved (opening c : Char) : Prop :=
  c = '\\' ∨ c = opening ∨ c = closing opening

/-- The characters that a word list with the given opening delimiter reserves. -/
def ReservedInWords (opening c : Char) : Prop :=
  Reserved opening c ∨ Text.isBlank c = true

instance (opening : Char) : DecidablePred (Reserved opening) :=
  fun c => inferInstanceAs (Decidable (c = '\\' ∨ c = opening ∨ c = closing opening))

instance (opening : Char) : DecidablePred (ReservedInWords opening) :=
  fun c => inferInstanceAs (Decidable (Reserved opening c ∨ Text.isBlank c = true))

theorem escapableSingle_iff {opening c : Char} :
    escapableSingle opening c = true ↔ Reserved opening c := by
  simp [escapableSingle, Reserved, or_assoc]

theorem escapableWord_iff {opening c : Char} :
    escapableWord opening c = true ↔ ReservedInWords opening c := by
  simp [escapableWord, escapableSingle_iff, ReservedInWords]

section

variable {escapable : Char → Bool} {P : Char → Prop}

/-- The text with a backslash before each character of a class. -/
def escaped (P : Char → Prop) [DecidablePred P] (text : List Char) : List Char :=
  text.flatMap fun c => if P c then ['\\', c] else [c]

/-- The second text is the first one without some of its backslashes. Each of these stands directly
before a character of the class, which is kept, as is everything else, in order. -/
inductive Unescapes (P : Char → Prop) : List Char → List Char → Prop
  | nil : Unescapes P [] []
  | keep (c : Char) {text rest : List Char} :
      Unescapes P text rest → Unescapes P (c :: text) (c :: rest)
  | drop {d : Char} {text rest : List Char} :
      P d → Unescapes P text rest → Unescapes P ('\\' :: d :: text) (d :: rest)

theorem dropEscapes_cons {c : Char} (plain : c ≠ '\\') (rest : List Char) :
    dropEscapes escapable (c :: rest) = c :: dropEscapes escapable rest := by
  rw [dropEscapes]
  rintro _ _ rfl
  exact absurd rfl plain

theorem dropEscapes_pair {d : Char} (isEscapable : escapable d = true) (rest : List Char) :
    dropEscapes escapable ('\\' :: d :: rest) = d :: dropEscapes escapable rest := by
  rw [dropEscapes, if_pos isEscapable]

/-- Reading undoes writing. A backslash of the text is a character like the others here, since it
belongs to the class. -/
theorem dropEscapes_escaped [DecidablePred P] (agree : ∀ c, escapable c = true ↔ P c)
    (backslash : P '\\') (text : List Char) : dropEscapes escapable (escaped P text) = text := by
  induction text with
  | nil => rfl
  | cons c text ih =>
    rw [escaped, List.flatMap_cons, ← escaped]
    by_cases reserved : P c
    · rw [if_pos reserved, List.cons_append, List.singleton_append,
        dropEscapes_pair ((agree c).2 reserved), ih]
    · have plain : c ≠ '\\' := by
        rintro rfl
        exact reserved backslash
      rw [if_neg reserved, List.singleton_append, dropEscapes_cons plain, ih]

theorem unescapes_dropEscapes (agree : ∀ c, escapable c = true ↔ P c) (text : List Char) :
    Unescapes P text (dropEscapes escapable text) := by
  fun_induction dropEscapes escapable text with
  | case1 => exact .nil
  | case2 d rest isEscapable ih => exact .drop ((agree d).1 isEscapable) ih
  | case3 d rest _ ih => exact .keep '\\' ih
  | case4 c rest _ ih => exact .keep c ih

end

/-- Single-quoted literals and word lists read back every text whose reserved characters were
escaped, whatever the delimiter, the backslash included; and in any text they drop only backslashes
that stand directly before a reserved character. -/
theorem unescape_escaped (opening : Char) (text : String) :
    unescapeSingle opening (String.ofList (escaped (Reserved opening) text.toList)) = text ∧
      unescapeWord opening (String.ofList (escaped (ReservedInWords opening) text.toList)) = text ∧
      Unescapes (Reserved opening) text.toList (unescapeSingle opening text).toList ∧
      Unescapes (ReservedInWords opening) text.toList (unescapeWord opening text).toList := by
  have single : ∀ c, escapableSingle opening c = true ↔ Reserved opening c :=
    fun _ => escapableSingle_iff
  have word : ∀ c, escapableWord opening c = true ↔ ReservedInWords opening c :=
    fun _ => escapableWord_iff
  refine ⟨?_, ?_, ?_, ?_⟩
  · rw [unescapeSingle, String.toList_ofList, dropEscapes_escaped single (.inl rfl),
      String.ofList_toList]
  · rw [unescapeWord, String.toList_ofList, dropEscapes_escaped word (.inl (.inl rfl)),
      String.ofList_toList]
  · rw [unescapeSingle, String.toList_ofList]
    exact unescapes_dropEscapes single text.toList
  · rw [unescapeWord, String.toList_ofList]
    exact unescapes_dropEscapes word text.toList

end RubyNormalForm.Literal
