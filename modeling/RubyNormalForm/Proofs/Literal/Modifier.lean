import RubyNormalForm.Literal.Escape

/-!
# Meta and control prefixes

A meta or control prefix changes the byte that the text after it denotes, and that text may begin
with a further prefix. A run of prefixes therefore acts on its operand from the inside out
(`unescape_modified`). The result depends only on which of the two kinds occur in the run: a control
prefix clears two bits and a meta prefix sets a third one, so prefixes can be exchanged and repeated
(`foldr_act`). The byte of the question mark is the exception, since a control prefix takes it to
DEL instead. No prefix yields that byte, so the exception concerns the innermost prefix only.
-/

namespace RubyNormalForm.Literal

/-- The prefixes: a meta prefix and the two spellings of a control prefix. -/
inductive Modifier where
  | high
  | control
  | shortControl
deriving DecidableEq

namespace Modifier

/-- How a prefix is written: `\M-`, `\C-` or `\c`. -/
def text : Modifier → List UInt8
  | .high => [0x5C, 0x4D, 0x2D]
  | .control => [0x5C, 0x43, 0x2D]
  | .shortControl => [0x5C, 0x63]

def isControl : Modifier → Bool
  | .high => false
  | .control | .shortControl => true

/-- What a prefix does to the byte of the text after it. -/
def act : Modifier → UInt8 → UInt8
  | .high => lift
  | .control | .shortControl => Literal.control

end Modifier

open Modifier

/-- A run of prefixes, the outermost one first. -/
def modifiersText (modifiers : List Modifier) : List UInt8 :=
  modifiers.flatMap text

/-- The byte with two bits cleared if a control prefix occurs, and then with the highest one set if
a meta prefix occurs. -/
def masked (modifiers : List Modifier) (b : UInt8) : UInt8 :=
  let low := if modifiers.any isControl then b &&& 0x9F else b
  if .high ∈ modifiers then low ||| 0x80 else low

/-! ### How a run is read -/

theorem operand_text_append (m : Modifier) (rest : List UInt8) :
    operand (m.text ++ rest) = (m.act (operand rest).1, (operand rest).2 + m.text.length) := by
  cases m <;> rfl

theorem operand_modifiersText_append (modifiers : List Modifier) (rest : List UInt8) :
    operand (modifiersText modifiers ++ rest) =
      (modifiers.foldr act (operand rest).1,
        (operand rest).2 + (modifiersText modifiers).length) := by
  induction modifiers with
  | nil => rfl
  | cons m modifiers ih =>
    rw [modifiersText, List.flatMap_cons, ← modifiersText, List.append_assoc,
      operand_text_append, ih, List.foldr_cons, List.length_append, Nat.add_comm m.text.length,
      Nat.add_assoc]

theorem unescape_text_append (m : Modifier) (rest : List UInt8) :
    unescape (m.text ++ rest) =
      m.act (operand rest).1 :: unescape (rest.drop (operand rest).2) := by
  cases m
  all_goals
    rw [unescape.eq_def]
    rfl

/-- A run of prefixes before any text denotes one byte: that of the operand, acted on from the
inside out. Reading goes on after the operand. -/
theorem unescape_modified {modifiers : List Modifier} (present : modifiers ≠ [])
    (rest : List UInt8) :
    unescape (modifiersText modifiers ++ rest) =
      modifiers.foldr act (operand rest).1 :: unescape (rest.drop (operand rest).2) := by
  obtain ⟨m, modifiers, rfl⟩ := List.exists_cons_of_ne_nil present
  rw [modifiersText, List.flatMap_cons, ← modifiersText, List.append_assoc, unescape_text_append,
    operand_modifiersText_append, List.foldr_cons, Nat.add_comm, ← List.drop_drop,
    List.drop_left]

/-- A byte that is no backslash is the operand itself. -/
theorem operand_plain {b : UInt8} (plain : b ≠ 0x5C) (rest : List UInt8) :
    operand (b :: rest) = (b, 1) := by
  rw [operand]
  -- the patterns of escapes all begin with a backslash
  all_goals
    intros
    contradiction

/-! ### What a run does -/

theorem and_ne_question (b : UInt8) : b &&& 0x9F ≠ 0x3F := by
  intro same
  have again : (b &&& 0x9F) &&& 0x9F = 0x3F &&& 0x9F := by rw [same]
  rw [UInt8.and_assoc, UInt8.and_self, same] at again
  exact absurd again (by decide)

theorem or_ne_question (b : UInt8) : b ||| 0x80 ≠ 0x3F := by
  intro same
  have again : (b ||| 0x80) ||| 0x80 = 0x3F ||| 0x80 := by rw [same]
  rw [UInt8.or_assoc, UInt8.or_self, same] at again
  exact absurd again (by decide)

/-- The two masks do not meet. -/
theorem or_and (b : UInt8) : (b ||| 0x80) &&& 0x9F = (b &&& 0x9F) ||| 0x80 := by
  rw [← UInt8.toBitVec_inj, UInt8.toBitVec_and, UInt8.toBitVec_or, UInt8.toBitVec_or,
    UInt8.toBitVec_and, BitVec.and_or_distrib_right]
  rfl

theorem masked_ne_question {b : UInt8} (other : b ≠ 0x3F) (modifiers : List Modifier) :
    masked modifiers b ≠ 0x3F := by
  rw [masked]
  split
  · exact or_ne_question _
  · split
    · exact and_ne_question b
    · exact other

theorem lift_masked (modifiers : List Modifier) (b : UInt8) :
    lift (masked modifiers b) = masked (.high :: modifiers) b := by
  have same : (Modifier.high :: modifiers).any isControl = modifiers.any isControl := rfl
  rw [lift, masked, masked, same, if_pos List.mem_cons_self]
  split
  · rw [UInt8.or_assoc, UInt8.or_self]
  · rfl

theorem control_masked {b : UInt8} (other : b ≠ 0x3F) {m : Modifier}
    (isControl : m.isControl = true) (modifiers : List Modifier) :
    control (masked modifiers b) = masked (m :: modifiers) b := by
  have high : .high ∈ m :: modifiers ↔ .high ∈ modifiers := by
    cases m
    · cases isControl
    all_goals simp
  have cleared : (if modifiers.any Modifier.isControl then b &&& 0x9F else b) &&& 0x9F =
      b &&& 0x9F := by
    split
    · rw [UInt8.and_assoc, UInt8.and_self]
    · rfl
  rw [control, if_neg (masked_ne_question other modifiers), masked, masked, List.any_cons,
    isControl, Bool.true_or, if_pos rfl]
  simp only [high]
  split
  · rw [or_and, cleared]
  · exact cleared

/-- The order of the prefixes does not matter, nor how often they are repeated. -/
theorem foldr_act {b : UInt8} (other : b ≠ 0x3F) (modifiers : List Modifier) :
    modifiers.foldr act b = masked modifiers b := by
  induction modifiers with
  | nil => rfl
  | cons m modifiers ih =>
    rw [List.foldr_cons, ih]
    cases m with
    | high => exact lift_masked modifiers b
    | control => exact control_masked other rfl modifiers
    | shortControl => exact control_masked other rfl modifiers

/-- Without a control prefix, DEL stays as it is or gets its highest bit set. -/
theorem masked_high {modifiers : List Modifier} (high : ∀ m ∈ modifiers, m.isControl = false) :
    masked modifiers 0x7F = if modifiers = [] then 0x7F else 0xFF := by
  have noControl : modifiers.any isControl = false := by simpa using high
  rw [masked, noControl, if_neg Bool.false_ne_true]
  cases modifiers with
  | nil => rfl
  | cons m modifiers =>
    have isHigh : m = .high := by
      match m, high m List.mem_cons_self with
      | .high, _ => rfl
    rw [isHigh, if_pos List.mem_cons_self, if_neg (List.cons_ne_nil _ _)]
    rfl

/-- Prefixes compose in any order. A run of them before a byte other than the backslash and the
question mark denotes that byte with the masks of the kinds that occur in the run; reading goes on
after the byte. Before a question mark, one control prefix with nothing but meta prefixes outside it
gives DEL, with the highest bit set if there are any. -/
theorem unescape_modifiers (modifiers : List Modifier) (rest : List UInt8) :
    (modifiers ≠ [] → ∀ b, b ≠ 0x5C → b ≠ 0x3F →
      unescape (modifiersText modifiers ++ b :: rest) = masked modifiers b :: unescape rest) ∧
    (∀ innermost : Modifier, innermost.isControl = true →
      (∀ m ∈ modifiers, m.isControl = false) →
      unescape (modifiersText (modifiers ++ [innermost]) ++ 0x3F :: rest) =
        (if modifiers = [] then 0x7F else 0xFF) :: unescape rest) := by
  constructor
  · intro present b plain other
    rw [unescape_modified present, operand_plain plain, foldr_act other]
    rfl
  · intro innermost isControl high
    have innermostAct : innermost.act 0x3F = 0x7F := by
      match innermost, isControl with
      | .control, _ | .shortControl, _ => rfl
    rw [unescape_modified (List.append_ne_nil_of_right_ne_nil _ (List.cons_ne_nil _ _)),
      operand_plain (by decide), List.foldr_append, List.foldr_cons, List.foldr_nil, innermostAct,
      foldr_act (by decide), masked_high high]
    rfl

/-- Three prefixes before a letter, with one kind among them twice, and a question mark whose
control prefix has two meta prefixes outside it. -/
theorem unescape_modifiers_letter_and_question :
    unescape (modifiersText [.control, .high, .shortControl] ++ [0x7A]) = [0x9A] ∧
      unescape (modifiersText ([.high, .high] ++ [.shortControl]) ++ [0x3F]) = [0xFF] := by
  have nothing : unescape [] = [] := by rw [unescape]
  have letter := (unescape_modifiers [.control, .high, .shortControl] []).1 (by decide) 0x7A
    (by decide) (by decide)
  have question := (unescape_modifiers [.high, .high] []).2 .shortControl rfl (by decide)
  rw [letter, question, nothing]
  decide

end RubyNormalForm.Literal
