import Mathlib
import RubyNormalForm.Proofs.Literal.Rational

/-!
# Integer literals

The grammar of integer literals is said here by what may stand before the digits: an optional sign,
and then a zero with the letter of a radix, a zero alone, or nothing. The reader looks at the text
in lower case and tries the letters one after the other. Two of them are hexadecimal digits as well,
and a zero alone announces octal digits only if something follows it, so the order in which they are
tried matters. It is settled by the first two characters of a text, since no octal digit is a
letter.

The value of digits is Mathlib's `Nat.ofDigits`, which has the least significant digit first.
-/

namespace RubyNormalForm.Literal

/-! ### The grammar -/

/-- The character writes the digit; a letter may be in either case. -/
def IsDigit (c : Char) (d : Nat) : Prop :=
  "0123456789abcdef".toList[d]? = some c ∨ "0123456789ABCDEF".toList[d]? = some c

/-- The characters write digits of a radix, the most significant one first, and there is at least
one of them. -/
structure WritesDigits (radix : Nat) (text : List Char) (digits : List Nat) : Prop where
  each : List.Forall₂ IsDigit text digits
  small : ∀ d ∈ digits, d < radix
  present : digits ≠ []

/-- The value of digits of which the first is the most significant one. -/
def valueOf (radix : Nat) (digits : List Nat) : Nat :=
  Nat.ofDigits radix digits.reverse

/-- What may stand before the digits of a radix. -/
def announcements : List (List Char × Nat) :=
  [(['0', 'x'], 16), (['0', 'X'], 16), (['0', 'b'], 2), (['0', 'B'], 2), (['0', 'o'], 8),
   (['0', 'O'], 8), (['0', 'd'], 10), (['0', 'D'], 10), (['0'], 8)]

/-- The text writes a natural number: digits of an announced radix, or decimal digits that do not
begin with a zero unless there is just one. -/
inductive Spells : List Char → Nat → Prop
  | announced {front text : List Char} {radix : Nat} {digits : List Nat} :
      (front, radix) ∈ announcements → WritesDigits radix text digits →
      Spells (front ++ text) (valueOf radix digits)
  | plain {text : List Char} {digits : List Nat} :
      WritesDigits 10 text digits → text.length = 1 ∨ text.head? ≠ some '0' →
      Spells text (valueOf 10 digits)

/-- The signs of a number, one of them not written, with what they multiply it by. -/
def signs : List (List Char × Int) :=
  [([], 1), (['+'], 1), (['-'], -1)]

/-- The text is an integer literal with the given value. -/
def IsInteger (text : List Char) (v : Int) : Prop :=
  ∃ sign factor body n, (sign, factor) ∈ signs ∧ text = sign ++ body ∧ Spells body n ∧
    v = factor * n

/-! ### Digits -/

theorem toNat_toLower (c : Char) :
    c.toLower.toNat = if 65 ≤ c.toNat ∧ c.toNat ≤ 90 then c.toNat + 32 else c.toNat := by
  rw [Char.toLower]
  split
  · rename_i upper
    have upper : 65 ≤ c.toNat ∧ c.toNat ≤ 90 := upper
    rw [if_pos upper]
    change (c.val + 32).toNat = c.val.toNat + 32
    rw [UInt32.toNat_add]
    change (c.toNat + 32) % 2 ^ 32 = c.toNat + 32
    omega
  · rename_i other
    have other : ¬ (65 ≤ c.toNat ∧ c.toNat ≤ 90) := other
    rw [if_neg other]

/-- The digits are characters in three ranges. -/
theorem isDigit_iff {c : Char} {d : Nat} :
    IsDigit c d ↔ c.toNat = 48 + d ∧ d < 10 ∨
      (c.toNat = 87 + d ∨ c.toNat = 55 + d) ∧ 10 ≤ d ∧ d < 16 := by
  by_cases small : d < 16
  · interval_cases d <;> simp [IsDigit, ← Char.toNat_inj, eq_comm]
  · have short : "0123456789abcdef".toList.length ≤ d ∧ "0123456789ABCDEF".toList.length ≤ d := by
      simp
      omega
    simp only [IsDigit, List.getElem?_eq_none short.1, List.getElem?_eq_none short.2]
    simp
    omega

theorem digitValue?_eq_some {radix : Nat} {c : Char} {d : Nat} :
    digitValue? radix c = some d ↔
      (c.toNat = 48 + d ∧ d < 10 ∨ c.toNat = 87 + d ∧ 10 ≤ d ∧ d < 16) ∧ d < radix := by
  simp only [digitValue?, Option.filter_eq_some_iff, decide_eq_true_eq]
  refine and_congr_left fun _ => ?_
  have letters : 'a'.toNat = 97 ∧ 'f'.toNat = 102 := by decide
  by_cases isDigit : c.isDigit = true
  · have range : 48 ≤ c.toNat ∧ c.toNat ≤ 57 := Char.isDigit_iff_toNat.1 isDigit
    simp [isDigit]
    omega
  · have range : ¬ (48 ≤ c.toNat ∧ c.toNat ≤ 57) :=
      fun range => isDigit (Char.isDigit_iff_toNat.2 range)
    simp [isDigit, letters]
    omega

/-- A character in lower case is read as the digit that the character writes. -/
theorem digitValue?_toLower {radix : Nat} {c : Char} {d : Nat} :
    digitValue? radix c.toLower = some d ↔ IsDigit c d ∧ d < radix := by
  have lower := toNat_toLower c
  rw [digitValue?_eq_some, isDigit_iff]
  refine and_congr_left fun _ => ?_
  split at lower <;> omega

theorem mapM_digitValue?_toLower {radix : Nat} {text : List Char} {digits : List Nat} :
    (text.map Char.toLower).mapM (digitValue? radix) = some digits ↔
      List.Forall₂ IsDigit text digits ∧ ∀ d ∈ digits, d < radix := by
  induction text generalizing digits with
  | nil => cases digits <;> simp [List.forall₂_nil_left_iff]
  | cons c rest ih =>
    rw [List.map_cons, List.mapM_cons]
    simp only [Option.bind_eq_bind, Option.bind_eq_some_iff, digitValue?_toLower, ih,
      Option.pure_def, Option.some.injEq]
    constructor
    · rintro ⟨d, ⟨writes, small⟩, others, ⟨each, all⟩, rfl⟩
      exact ⟨.cons writes each, List.forall_mem_cons.2 ⟨small, all⟩⟩
    · rintro ⟨each, all⟩
      cases each with
      | cons writes each =>
        rw [List.forall_mem_cons] at all
        exact ⟨_, ⟨writes, all.1⟩, _, ⟨each, all.2⟩, rfl⟩

theorem WritesDigits.exists_isDigit {radix : Nat} {text : List Char} {digits : List Nat}
    (writes : WritesDigits radix text digits) {c : Char} (member : c ∈ text) :
    ∃ d, IsDigit c d ∧ d < radix := by
  obtain ⟨each, small, -⟩ := writes
  induction each with
  | nil => cases member
  | cons isDigit _ ih =>
    rw [List.forall_mem_cons] at small
    obtain rfl | inRest := List.mem_cons.1 member
    · exact ⟨_, isDigit, small.1⟩
    · exact ih inRest small.2

theorem foldl_eq_valueOf (radix : Nat) (digits : List Nat) :
    digits.foldl (fun n d => n * radix + d) 0 = valueOf radix digits := by
  rw [valueOf, Nat.ofDigits_eq_foldr, List.foldr_reverse]
  congr 1
  funext n d
  rw [Nat.cast_id, Nat.add_comm, Nat.mul_comm]

/-- Digits of a radix are read, and nothing else is. -/
theorem natural?_toLower_eq_some {radix : Nat} {text : List Char} {n : Nat} :
    natural? radix (text.map Char.toLower) = some n ↔
      ∃ digits, WritesDigits radix text digits ∧ n = valueOf radix digits := by
  rw [natural?]
  cases text with
  | nil =>
    simp only [List.map_nil, List.isEmpty_nil, if_true, reduceCtorEq, false_iff, not_exists,
      not_and]
    rintro digits ⟨each, -, present⟩
    exact absurd (List.forall₂_nil_left_iff.1 each) present
  | cons c rest =>
    rw [List.map_cons, List.isEmpty_cons, if_neg Bool.false_ne_true, ← List.map_cons,
      Option.map_eq_some_iff]
    simp only [mapM_digitValue?_toLower, foldl_eq_valueOf]
    constructor
    · rintro ⟨digits, ⟨each, small⟩, rfl⟩
      refine ⟨digits, ⟨each, small, ?_⟩, rfl⟩
      rintro rfl
      cases each
    · rintro ⟨digits, ⟨each, small, -⟩, rfl⟩
      exact ⟨digits, ⟨each, small⟩, rfl⟩

/-! ### Announcements -/

/-- A letter in lower case comes from the letter in either case. -/
theorem eq_or_eq_of_toLower_eq {c l u : Char} (isUpper : u.toNat + 32 = l.toNat)
    (isLower : c.toLower = l) : c = l ∨ c = u := by
  have code := toNat_toLower c
  rw [isLower] at code
  rw [← Char.toNat_inj, ← Char.toNat_inj]
  split at code <;> omega

theorem eq_zero_of_toLower_eq {c : Char} (isLower : c.toLower = '0') : c = '0' := by
  have code := toNat_toLower c
  rw [isLower] at code
  rw [← Char.toNat_inj]
  split at code
  · have zero : '0'.toNat = 48 := rfl
    omega
  · exact code.symm

theorem exists_of_map_toLower_eq {text digits : List Char} {l : Char}
    (isLower : text.map Char.toLower = '0' :: l :: digits) :
    ∃ c rest, text = '0' :: c :: rest ∧ c.toLower = l ∧ rest.map Char.toLower = digits := by
  obtain ⟨first, others, rfl, isZero, others'⟩ := List.map_eq_cons_iff.1 isLower
  obtain ⟨c, rest, rfl, isLetter, isRest⟩ := List.map_eq_cons_iff.1 others'
  rw [eq_zero_of_toLower_eq isZero]
  exact ⟨c, rest, rfl, isLetter, isRest⟩

/-- What the reader finds at the front of a text: an announcement, the last one of them only if
no letter follows, or none. -/
theorem radixOf_cases (text : List Char) :
    (∃ front radix rest, (front, radix) ∈ announcements ∧ text = front ++ rest ∧
      radixOf (text.map Char.toLower) = (radix, rest.map Char.toLower)) ∨
    (text.length = 1 ∨ text.head? ≠ some '0') ∧
      radixOf (text.map Char.toLower) = (10, text.map Char.toLower) := by
  generalize isLower : text.map Char.toLower = lower
  have lettered {l u : Char} {radix : Nat} {digits : List Char}
      (isLower : text.map Char.toLower = '0' :: l :: digits) (isUpper : u.toNat + 32 = l.toNat)
      (known : (['0', l], radix) ∈ announcements) (known' : (['0', u], radix) ∈ announcements) :
      ∃ front r rest, (front, r) ∈ announcements ∧ text = front ++ rest ∧
        (radix, digits) = (r, rest.map Char.toLower) := by
    obtain ⟨c, rest, rfl, isLetter, rfl⟩ := exists_of_map_toLower_eq isLower
    obtain rfl | rfl := eq_or_eq_of_toLower_eq isUpper isLetter
    · exact ⟨_, _, rest, known, rfl, rfl⟩
    · exact ⟨_, _, rest, known', rfl, rfl⟩
  fun_cases radixOf lower with
  | case1 digits => exact .inl (lettered (u := 'X') isLower rfl (by decide) (by decide))
  | case2 digits => exact .inl (lettered (u := 'B') isLower rfl (by decide) (by decide))
  | case3 digits => exact .inl (lettered (u := 'O') isLower rfl (by decide) (by decide))
  | case4 digits => exact .inl (lettered (u := 'D') isLower rfl (by decide) (by decide))
  | case5 c digits =>
    obtain ⟨c, rest, rfl, rfl, rfl⟩ := exists_of_map_toLower_eq isLower
    exact .inl ⟨['0'], 8, c :: rest, by decide, rfl, rfl⟩
  | case6 lower _ _ _ _ noZero =>
    refine .inr ⟨?_, rfl⟩
    rw [or_iff_not_imp_right, not_not]
    intro isZero
    match text with
    | [_] => rfl
    | first :: second :: rest =>
      cases isZero
      exact absurd isLower.symm (noZero _ _)

/-- Octal digits after a zero are not taken for the letter of a radix. -/
theorem radixOf_announced {front text : List Char} {radix : Nat} {digits : List Nat}
    (known : (front, radix) ∈ announcements) (writes : WritesDigits radix text digits) :
    radixOf ((front ++ text).map Char.toLower) = (radix, text.map Char.toLower) := by
  simp only [announcements, List.mem_cons, Prod.mk.injEq, List.not_mem_nil, or_false] at known
  obtain ⟨rfl, rfl⟩ | ⟨rfl, rfl⟩ | ⟨rfl, rfl⟩ | ⟨rfl, rfl⟩ | ⟨rfl, rfl⟩ | ⟨rfl, rfl⟩ |
    ⟨rfl, rfl⟩ | ⟨rfl, rfl⟩ | ⟨rfl, rfl⟩ := known
  case inr.inr.inr.inr.inr.inr.inr.inr =>
    obtain ⟨each, small, present⟩ := writes
    cases each with
    | nil => exact absurd rfl present
    | @cons c d rest others writes each =>
      have octal : digitValue? 8 c.toLower = some d :=
        digitValue?_toLower.2 ⟨writes, small d List.mem_cons_self⟩
      have other {l : Char} (noDigit : digitValue? 8 l = none) : c.toLower ≠ l := by
        rintro rfl
        rw [noDigit] at octal
        cases octal
      exact radixOf.eq_5 _ _ (other (by decide)) (other (by decide)) (other (by decide))
        (other (by decide))
  all_goals rfl

theorem radixOf_plain {text : List Char} (plain : text.length = 1 ∨ text.head? ≠ some '0') :
    radixOf (text.map Char.toLower) = (10, text.map Char.toLower) := by
  generalize isLower : text.map Char.toLower = lower
  have noZero (l : Char) (digits : List Char) : lower ≠ '0' :: l :: digits := by
    rintro rfl
    obtain ⟨c, rest, rfl, -, -⟩ := exists_of_map_toLower_eq isLower
    simp at plain
  fun_cases radixOf lower with
  | case6 => rfl
  | _ => exact absurd rfl (noZero _ _)

theorem magnitude?_eq_some {text : List Char} {n : Nat} :
    magnitude? text = some n ↔ Spells text n := by
  constructor
  · intro found
    obtain ⟨front, radix, rest, known, rfl, isRadix⟩ | ⟨plain, isRadix⟩ := radixOf_cases text
    · rw [magnitude?, isRadix] at found
      obtain ⟨digits, writes, rfl⟩ := natural?_toLower_eq_some.1 found
      exact .announced known writes
    · rw [magnitude?, isRadix] at found
      obtain ⟨digits, writes, rfl⟩ := natural?_toLower_eq_some.1 found
      exact .plain writes plain
  · rintro (⟨known, writes⟩ | ⟨writes, plain⟩)
    · rw [magnitude?, radixOf_announced known writes]
      exact natural?_toLower_eq_some.2 ⟨_, writes, rfl⟩
    · rw [magnitude?, radixOf_plain plain]
      exact natural?_toLower_eq_some.2 ⟨_, writes, rfl⟩

/-! ### Signs -/

/-- No text that writes a natural number begins with a sign. -/
theorem Spells.ne_sign_cons {text : List Char} {n : Nat} (spells : Spells text n) {c : Char}
    (isSigned : isSign c = true) (rest : List Char) : text ≠ c :: rest := by
  rintro rfl
  have first : ∃ d, IsDigit c d := by
    generalize isText : c :: rest = text at spells
    cases spells with
    | announced known writes =>
      have zero : ∀ entry ∈ announcements, entry.1.head? = some '0' := by decide
      have isHead := congrArg List.head? isText
      rw [List.head?_append, zero _ known] at isHead
      cases isHead
      exact ⟨0, .inl rfl⟩
    | plain writes =>
      obtain ⟨d, isDigit, -⟩ := writes.exists_isDigit (isText ▸ List.mem_cons_self)
      exact ⟨d, isDigit⟩
  obtain ⟨d, writes⟩ := first
  have codes : '+'.toNat = 43 ∧ '-'.toNat = 45 := by decide
  simp only [isSign, Bool.or_eq_true, beq_iff_eq, ← Char.toNat_inj] at isSigned
  rw [isDigit_iff] at writes
  omega

theorem integer?_eq_some {text : String} {v : Int} :
    integer? text = some v ↔ IsInteger (withoutUnderscores text.toList) v := by
  rw [integer?]
  generalize withoutUnderscores text.toList = clean
  constructor
  · intro found
    obtain ⟨rest, rfl, isRead⟩ | ⟨rest, rfl, isRead⟩ | isRead := signed?_cases magnitude? clean
    all_goals
      rw [isRead, Option.map_eq_some_iff] at found
      obtain ⟨n, isNatural, rfl⟩ := found
    · exact ⟨['-'], -1, rest, n, by decide, rfl, magnitude?_eq_some.1 isNatural, by simp⟩
    · exact ⟨['+'], 1, rest, n, by decide, rfl, magnitude?_eq_some.1 isNatural, by simp⟩
    · exact ⟨[], 1, clean, n, by decide, rfl, magnitude?_eq_some.1 isNatural, by simp⟩
  · rintro ⟨sign, factor, body, n, known, rfl, spells, rfl⟩
    have isRead := magnitude?_eq_some.2 spells
    simp only [signs, List.mem_cons, Prod.mk.injEq, List.not_mem_nil, or_false] at known
    obtain ⟨rfl, rfl⟩ | ⟨rfl, rfl⟩ | ⟨rfl, rfl⟩ := known
    · rw [List.nil_append]
      obtain ⟨rest, rfl, -⟩ | ⟨rest, rfl, -⟩ | same := signed?_cases magnitude? body
      · exact absurd rfl (spells.ne_sign_cons rfl rest)
      · exact absurd rfl (spells.ne_sign_cons rfl rest)
      · rw [same, isRead]
        simp
    · rw [List.singleton_append, signed?, isRead]
      simp
    · rw [List.singleton_append, signed?, isRead]
      simp

/-! ### Every integer in every radix -/

/-- The text writes the integer in a radix: a sign that fits it, what announces the radix, and the
digits of its magnitude, letters in either case. Zeros may stand before the digits of an announced
radix. -/
def IsRadixForm (text : List Char) (v : Int) : Prop :=
  ∃ sign factor front radix zeros digits, (sign, factor) ∈ signs ∧ factor * v.natAbs = v ∧
    (front, radix) ∈ ([], 10) :: announcements ∧ (front = [] → zeros = 0) ∧
    digits.map Char.toLower = List.replicate zeros '0' ++ Nat.toDigits radix v.natAbs ∧
    text = sign ++ front ++ digits

theorem valueOf_concat (radix : Nat) (digits : List Nat) (d : Nat) :
    valueOf radix (digits ++ [d]) = radix * valueOf radix digits + d := by
  rw [valueOf, List.reverse_concat, Nat.ofDigits_cons, valueOf, Nat.add_comm]

theorem isDigit_digitChar {d : Nat} (small : d < 16) : IsDigit d.digitChar d := by
  interval_cases d <;> exact .inl rfl

/-- The digits of a number have its value. -/
theorem exists_writesDigits_toDigits {radix : Nat} (two : 1 < radix) (sixteen : radix ≤ 16)
    (n : Nat) :
    ∃ digits, WritesDigits radix (Nat.toDigits radix n) digits ∧ valueOf radix digits = n := by
  induction n using Nat.base_induction radix two with
  | single d small =>
    rw [Nat.toDigits_of_lt_base small]
    refine ⟨[d], ⟨.cons (isDigit_digitChar (by omega)) .nil, by simpa using small, by simp⟩, ?_⟩
    rw [valueOf, List.reverse_singleton, Nat.ofDigits_singleton]
  | digit m d small positive ih =>
    obtain ⟨digits, ⟨each, all, -⟩, value⟩ := ih
    rw [← Nat.toDigits_append_toDigits two positive small, Nat.toDigits_of_lt_base small]
    refine ⟨digits ++ [d], ⟨?_, ?_, by simp⟩, ?_⟩
    · exact List.rel_append each (.cons (isDigit_digitChar (by omega)) .nil)
    · simpa [or_imp, forall_and] using ⟨all, small⟩
    · rw [valueOf_concat, value]

/-- Zeros in front change nothing. -/
theorem WritesDigits.zeros {radix : Nat} (positive : 0 < radix) {text : List Char}
    {digits : List Nat} (writes : WritesDigits radix text digits) (zeros : Nat) :
    ∃ digits', WritesDigits radix (List.replicate zeros '0' ++ text) digits' ∧
      valueOf radix digits' = valueOf radix digits := by
  induction zeros with
  | zero => exact ⟨digits, writes, rfl⟩
  | succ zeros ih =>
    obtain ⟨digits', ⟨each, small, -⟩, value⟩ := ih
    refine ⟨0 :: digits', ⟨.cons (.inl rfl) each, ?_, by simp⟩, ?_⟩
    · simpa using ⟨positive, small⟩
    · rw [← value, valueOf, Nat.ofDigits_reverse_zero_cons, valueOf]

theorem WritesDigits.of_toLower {radix : Nat} {text : List Char} {digits : List Nat}
    (writes : WritesDigits radix (text.map Char.toLower) digits) :
    WritesDigits radix text digits := by
  refine ⟨(List.forall₂_map_left_iff.1 writes.each).imp ?_, writes.small, writes.present⟩
  intro c d isLower
  have code := toNat_toLower c
  rw [isDigit_iff] at isLower ⊢
  split at code <;> omega

theorem head?_toDigits_ne_zero {radix n : Nat} (two : 1 < radix) (positive : 0 < n) :
    (Nat.toDigits radix n).head? ≠ some '0' := by
  induction n using Nat.base_induction radix two with
  | single d small =>
    rw [Nat.toDigits_of_lt_base small]
    simp
    omega
  | digit m d small positive' ih =>
    rw [← Nat.toDigits_append_toDigits two positive' small,
      List.head?_append_of_ne_nil _ Nat.toDigits_ne_nil]
    exact ih positive'

/-- Decimal digits without zeros in front need no announcement. -/
theorem plain_of_toDigits {text : List Char} {n : Nat}
    (isDigits : text.map Char.toLower = Nat.toDigits 10 n) :
    text.length = 1 ∨ text.head? ≠ some '0' := by
  obtain rfl | positive := Nat.eq_zero_or_pos n
  · left
    rw [← List.length_map (f := Char.toLower), isDigits, Nat.toDigits_zero]
    rfl
  · right
    intro isZero
    apply head?_toDigits_ne_zero (by decide : 1 < 10) positive
    rw [← isDigits, List.head?_map, isZero]
    rfl

theorem isInteger_of_isRadixForm {text : List Char} {v : Int} (form : IsRadixForm text v) :
    IsInteger text v := by
  obtain ⟨sign, factor, front, radix, zeros, digits, isSigned, value, known, plain, isDigits,
    rfl⟩ := form
  have range : 1 < radix ∧ radix ≤ 16 := by
    have all : ∀ entry ∈ ([], 10) :: announcements, 1 < entry.2 ∧ entry.2 ≤ 16 := by decide
    exact all _ known
  obtain ⟨values, writes, isValue⟩ := exists_writesDigits_toDigits range.1 range.2 v.natAbs
  obtain ⟨values', writes', same⟩ := writes.zeros (by omega) zeros
  rw [← isDigits] at writes'
  refine ⟨sign, factor, front ++ digits, v.natAbs, isSigned, List.append_assoc _ _ _, ?_,
    value.symm⟩
  rw [← isValue, ← same]
  obtain isPlain | announced := List.mem_cons.1 known
  · cases isPlain
    rw [plain rfl] at isDigits
    exact .plain writes'.of_toLower (plain_of_toDigits isDigits)
  · exact .announced announced writes'.of_toLower

/-- A text is an integer literal if and only if, underscores apart, it is an optional sign before
digits that are announced as hexadecimal, binary, octal or decimal, octal digits after a zero, or
decimal digits that do not begin with a zero unless there is just one; its value is that of the
digits in their radix, with the sign. So every integer is read back from each of its forms, in any
radix, with underscores anywhere. -/
theorem integer?_reads_grammar (text : String) :
    (∀ v, integer? text = some v ↔ IsInteger (withoutUnderscores text.toList) v) ∧
      ∀ v, IsRadixForm (withoutUnderscores text.toList) v → integer? text = some v :=
  ⟨fun _ => integer?_eq_some, fun _ form => integer?_eq_some.2 (isInteger_of_isRadixForm form)⟩

/-- Minus thirty in hexadecimal digits of both cases, with zeros and underscores. -/
theorem integer?_reads_hexadecimal :
    IsRadixForm (withoutUnderscores "-0X_001_e".toList) (-30) ∧
      integer? "-0X_001_e" = some (-30) ∧ ∀ v, ¬ IsInteger (withoutUnderscores "0_8".toList) v := by
  have form : IsRadixForm (withoutUnderscores "-0X_001_e".toList) (-30) :=
    ⟨['-'], -1, ['0', 'X'], 16, 2, ['0', '0', '1', 'e'], by decide, by decide, by decide, by simp,
      by decide, by decide⟩
  refine ⟨form, (integer?_reads_grammar "-0X_001_e").2 (-30) form, fun v => ?_⟩
  rw [← (integer?_reads_grammar "0_8").1 v]
  have refused : integer? "0_8" = none := by decide
  rw [refused]
  nofun

end RubyNormalForm.Literal
