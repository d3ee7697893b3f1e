import RubyNormalForm.Proofs.Literal.Integer
import RubyNormalForm.Proofs.Rules.Negation

/-!
# Integers with a suffix

An integer literal with an `r` behind it is a rational number, and with an `i` an imaginary one. A
rational literal hands its integer to the reader of integers. An imaginary literal first decides
whether its number is a float, by the letter of an exponent. That letter is a hexadecimal digit as
well, and only a number that begins with `0x` is known to be hexadecimal: with the radix letter in
upper case, a sign in front or an underscore between, a number with that digit goes to the reader of
floats, which accepts none of them.
-/

namespace RubyNormalForm

namespace Literal

/-! ### The characters of integer literals -/

/-- The characters that an integer literal may hold besides underscores. -/
def integerChars : List Char :=
  "+-0123456789abcdefABCDEFxXoO".toList

theorem IsDigit.mem_integerChars {c : Char} {d : Nat} (writes : IsDigit c d) :
    c ∈ integerChars := by
  have lower : "0123456789abcdef".toList ⊆ integerChars := by decide
  have upper : "0123456789ABCDEF".toList ⊆ integerChars := by decide
  obtain isLower | isUpper := writes
  · exact lower (List.mem_of_getElem? isLower)
  · exact upper (List.mem_of_getElem? isUpper)

theorem Spells.mem_integerChars {text : List Char} {n : Nat} (spells : Spells text n) {c : Char}
    (member : c ∈ text) : c ∈ integerChars := by
  cases spells with
  | announced known writes =>
    obtain inFront | inDigits := List.mem_append.1 member
    · have all : ∀ entry ∈ announcements, entry.1 ⊆ integerChars := by decide
      exact all _ known inFront
    · obtain ⟨d, isDigit, -⟩ := writes.exists_isDigit inDigits
      exact isDigit.mem_integerChars
  | plain writes =>
    obtain ⟨d, isDigit, -⟩ := writes.exists_isDigit member
    exact isDigit.mem_integerChars

/-- Apart from underscores, an integer literal holds no other characters. -/
theorem mem_integerChars_of_integer? {text : String} {v : Int} (isRead : integer? text = some v)
    {c : Char} (member : c ∈ text.toList) : c = '_' ∨ c ∈ integerChars := by
  rw [or_iff_not_imp_left]
  intro noUnderscore
  obtain ⟨sign, factor, body, n, known, isClean, spells, -⟩ := integer?_eq_some.1 isRead
  have inClean : c ∈ sign ++ body := isClean ▸ mem_withoutUnderscores.2 ⟨member, noUnderscore⟩
  obtain inSign | inBody := List.mem_append.1 inClean
  · have all : ∀ entry ∈ signs, entry.1 ⊆ integerChars := by decide
    exact all _ known inSign
  · exact spells.mem_integerChars inBody

/-- Whether a character is the letter of an exponent. -/
def isExponentLetter (c : Char) : Bool :=
  c == 'e' || c == 'E'

/-- A number with the letter of an exponent is hexadecimal. -/
theorem Spells.exists_of_exponentLetter {text : List Char} {n : Nat} (spells : Spells text n)
    {c : Char} (isLetter : isExponentLetter c = true) (member : c ∈ text) :
    ∃ letter ∈ ['x', 'X'], ∃ rest, text = '0' :: letter :: rest := by
  have large {d radix : Nat} (isDigit : IsDigit c d) (small : d < radix) : 10 < radix := by
    have codes : 'e'.toNat = 101 ∧ 'E'.toNat = 69 := by decide
    simp only [isExponentLetter, Bool.or_eq_true, beq_iff_eq, ← Char.toNat_inj] at isLetter
    rw [isDigit_iff] at isDigit
    omega
  cases spells with
  | announced known writes =>
    obtain inFront | inDigits := List.mem_append.1 member
    · have none : ∀ entry ∈ announcements, ∀ c ∈ entry.1, isExponentLetter c = false := by
        simp [announcements, isExponentLetter]
      rw [none _ known c inFront] at isLetter
      cases isLetter
    · obtain ⟨d, isDigit, small⟩ := writes.exists_isDigit inDigits
      have hexadecimal : ∀ entry ∈ announcements, 10 < entry.2 →
          ∃ letter ∈ ['x', 'X'], entry.1 = ['0', letter] := by
        simp [announcements]
      obtain ⟨letter, isRadix, rfl⟩ := hexadecimal _ known (large isDigit small)
      exact ⟨letter, isRadix, _, rfl⟩
  | plain writes =>
    obtain ⟨d, isDigit, small⟩ := writes.exists_isDigit member
    exact absurd (large isDigit small) (by decide)

/-! ### Rational and imaginary numbers -/

theorem fractionText_one (v : Int) : fractionText v 1 = ratioText v 1 := by
  have divisor : commonDivisor v 1 = 1 := by
    rw [commonDivisor_eq_gcd, Int.natAbs_one, Nat.gcd_one_right]
    rfl
  simp only [fractionText, Nat.cast_one, divisor, Int.tdiv_one]
  rfl

/-- Every integer literal is a rational literal with an `r` behind it. -/
theorem rational?_of_integer? {text : String} {v : Int} (isRead : integer? text = some v) :
    rational? (text.toList ++ ['r']) = some (ratioText v 1) := by
  have noPoint : '.' ∉ withoutUnderscores text.toList := by
    intro member
    have known := mem_integerChars_of_integer? isRead (mem_withoutUnderscores.1 member).1
    exact absurd known (by decide)
  refine rational?_eq_some.2 ⟨text.toList, v, 1, rfl, ?_, fractionText_one v⟩
  rw [fraction?_integer noPoint]
  exact congrArg (Option.map fun n => (n, 1)) isRead

/-- A number with a radix letter is no float. -/
theorem float?_hexadecimal {sign : List Char} {factor : Int} (known : (sign, factor) ∈ signs)
    {letter : Char} (isRadix : letter ∈ ['x', 'X']) (rest : List Char) :
    Number.float? (sign ++ '0' :: letter :: rest) = none := by
  have unsigned (negative : Bool) : Number.unsigned? negative ('0' :: letter :: rest) = none := by
    simp only [List.mem_cons, List.not_mem_nil, or_false] at isRadix
    obtain rfl | rfl := isRadix
    · rfl
    · rfl
  have word (name : String) (noZero : name.toList.head? ≠ some '0') :
      (String.ofList (('0' :: letter :: rest).map Char.toLower) == name) = false := by
    rw [beq_eq_false_iff_ne]
    rintro rfl
    rw [String.toList_ofList] at noZero
    exact noZero rfl
  have signOff : ∃ negative, Number.takeSign (sign ++ '0' :: letter :: rest) =
      (negative, '0' :: letter :: rest) := by
    simp only [signs, List.mem_cons, Prod.mk.injEq, List.not_mem_nil, or_false] at known
    obtain ⟨rfl, -⟩ | ⟨rfl, -⟩ | ⟨rfl, -⟩ := known <;> exact ⟨_, rfl⟩
  obtain ⟨negative, isSign⟩ := signOff
  simp only [Number.float?, isSign, word "inf" (by decide), word "infinity" (by decide),
    word "nan" (by decide), unsigned, Bool.or_self, Bool.false_eq_true, if_false]

/-- The number holds the letter of an exponent and does not begin like a hexadecimal one. -/
def TakenForFloat (text : List Char) : Prop :=
  (∃ c ∈ text, isExponentLetter c = true) ∧ ¬ ['0', 'x'] <+: text

theorem isFloatNumber_of_integer? {text : String} {v : Int} (isRead : integer? text = some v) :
    isFloatNumber text.toList = true ↔ TakenForFloat text.toList := by
  have noPoint : '.' ∉ text.toList := fun member =>
    absurd (mem_integerChars_of_integer? isRead member) (by decide)
  have letters : (text.toList.any fun c => c == '.' || c == 'e' || c == 'E') = true ↔
      ∃ c ∈ text.toList, isExponentLetter c = true := by
    rw [List.any_eq_true]
    refine exists_congr fun c => and_congr_right fun member => ?_
    have other : (c == '.') = false := by
      rw [beq_eq_false_iff_ne]
      rintro rfl
      exact noPoint member
    rw [other, Bool.false_or, isExponentLetter]
  rw [isFloatNumber, Bool.and_eq_true, letters, TakenForFloat, Bool.not_eq_true',
    ← Bool.not_eq_true, List.isPrefixOf_iff_prefix]

/-- No integer literal is a float if it holds the letter of an exponent. -/
theorem float?_of_integer? {text : String} {v : Int} (isRead : integer? text = some v)
    {c : Char} (isLetter : isExponentLetter c = true) (member : c ∈ text.toList) :
    Number.float? (withoutUnderscores text.toList) = none := by
  obtain ⟨sign, factor, body, n, known, isClean, spells, -⟩ := integer?_eq_some.1 isRead
  have noUnderscore : c ≠ '_' := by
    rintro rfl
    cases isLetter
  have inClean : c ∈ sign ++ body := isClean ▸ mem_withoutUnderscores.2 ⟨member, noUnderscore⟩
  have inBody : c ∈ body := by
    have none : ∀ entry ∈ signs, ∀ c ∈ entry.1, isExponentLetter c = false := by
      simp [signs, isExponentLetter]
    refine (List.mem_append.1 inClean).resolve_left fun inSign => ?_
    rw [none _ known c inSign] at isLetter
    cases isLetter
  obtain ⟨letter, isRadix, rest, rfl⟩ := spells.exists_of_exponentLetter isLetter inBody
  rw [isClean]
  exact float?_hexadecimal known isRadix rest

/-- An integer literal is an imaginary literal with an `i` behind it, unless it is taken for a
float. -/
theorem imaginary?_of_integer? {text : String} {v : Int} (isRead : integer? text = some v) :
    (¬ TakenForFloat text.toList →
      imaginary? (text.toList ++ ['i']) = some ("(0+" ++ toString v ++ "i)")) ∧
    (TakenForFloat text.toList → imaginary? (text.toList ++ ['i']) = none) := by
  have noRational : (text.toList.getLast? == some 'r') = false := by
    rw [beq_eq_false_iff_ne]
    intro isLast
    have known := mem_integerChars_of_integer? isRead (List.mem_of_getLast? isLast)
    exact absurd known (by decide)
  have inside := withoutLast?_eq_some.2 (rfl : text.toList ++ ['i'] = text.toList ++ ['i'])
  rw [imaginary?, inside, Option.bind_some, noRational, if_neg Bool.false_ne_true]
  constructor
  · intro plain
    rw [if_neg (mt (isFloatNumber_of_integer? isRead).1 plain)]
    exact congrArg (Option.map fun n => "(0+" ++ toString n ++ "i)") isRead
  · intro taken
    rw [if_pos ((isFloatNumber_of_integer? isRead).2 taken)]
    obtain ⟨⟨c, member, isLetter⟩, -⟩ := taken
    rw [float?_of_integer? isRead isLetter member, Option.map_none]

end Literal

namespace Rules

open Literal (integer? ratioText TakenForFloat)
open Raw (Node)

/-- A token of a number that cannot be read is an error. -/
theorem normalizeNode_unread {tag : String} {kind : NumberKind} {read : String → Option Item}
    (found : rule? tag = some (numberRule kind read)) (isToken : tag.toList.head? = some '@')
    {text : String} (unread : read text = none) (ctx : Context) (line column : Nat) :
    normalizeNode ctx ⟨tag, [.str text, .pos line column]⟩ =
      .error (.malformed tag (.invalidNumber kind text)) := by
  have isLocal : Rule.LocalAt (numberRule kind read) ctx ⟨tag, [.str text, .pos line column]⟩ :=
    fun _ _ _ => rfl
  rw [normalizeNode_of_localAt found isLocal]
  simp [numberRule, token, Node.isToken, isToken, Node.stringAt, Node.positionAt, Node.slot, unread]
  rfl

/-- The suffixes of integer literals. Every integer literal is a rational literal with an `r` behind
it. With an `i` behind it, it is an imaginary literal unless it holds the letter `e` in either case
and does not begin with `0x`: then it is hexadecimal, with a radix letter in upper case, a sign or
an underscore before that letter, and is refused. -/
theorem normalizeNode_suffixed_integer (ctx : Context) {text : String} {v : Int}
    (isRead : integer? text = some v) (line column : Nat) :
    normalizeNode ctx ⟨"@rational", [.str (text ++ "r"), .pos line column]⟩ =
        .ok ⟨"lit", [.rational (ratioText v 1)], some (ctx.line line), none⟩ ∧
    (¬ TakenForFloat text.toList →
      normalizeNode ctx ⟨"@imaginary", [.str (text ++ "i"), .pos line column]⟩ =
        .ok ⟨"lit", [.imaginary ("(0+" ++ toString v ++ "i)")], some (ctx.line line), none⟩) ∧
    (TakenForFloat text.toList →
      normalizeNode ctx ⟨"@imaginary", [.str (text ++ "i"), .pos line column]⟩ =
        .error (.malformed "@imaginary" (.invalidNumber .imaginary (text ++ "i")))) := by
  have rational : rule? "@rational" = some rationalRule := rfl
  have imaginary : rule? "@imaginary" = some imaginaryRule := rfl
  obtain ⟨accepted, refused⟩ := Literal.imaginary?_of_integer? isRead
  refine ⟨?_, fun plain => ?_, fun taken => ?_⟩
  · refine normalizeNode_number rational (by decide) ?_ ctx line column
    rw [String.toList_append]
    exact congrArg (Option.map Item.rational) (Literal.rational?_of_integer? isRead)
  · refine normalizeNode_number imaginary (by decide) ?_ ctx line column
    rw [String.toList_append]
    exact congrArg (Option.map Item.imaginary) (accepted plain)
  · refine normalizeNode_unread imaginary (by decide) ?_ ctx line column
    rw [String.toList_append]
    exact congrArg (Option.map Item.imaginary) (refused taken)

/-- A hexadecimal number with the digit `e`, with either suffix, and the same with a sign. -/
theorem normalizeNode_suffixed_hexadecimal :
    let ctx : Context := { filename := "a.rb", lineOffset := 0, charset := ⟨.utf8, false⟩ }
    integer? "0x_1E" = some 30 ∧ ¬ TakenForFloat "0x_1E".toList ∧
      normalizeNode ctx ⟨"@rational", [.str "0x_1Er", .pos 1 0]⟩ =
        .ok ⟨"lit", [.rational "(30/1)"], some 1, none⟩ ∧
      normalizeNode ctx ⟨"@imaginary", [.str "0x_1Ei", .pos 1 0]⟩ =
        .ok ⟨"lit", [.imaginary "(0+30i)"], some 1, none⟩ ∧
      integer? "-0x1e" = some (-30) ∧ TakenForFloat "-0x1e".toList ∧
      normalizeNode ctx ⟨"@imaginary", [.str "-0x1ei", .pos 1 0]⟩ =
        .error (.malformed "@imaginary" (.invalidNumber .imaginary "-0x1ei")) := by
  intro ctx
  have isRead : integer? "0x_1E" = some 30 := by decide
  have plain : ¬ TakenForFloat "0x_1E".toList := fun taken => taken.2 (by decide)
  have isSigned : integer? "-0x1e" = some (-30) := by decide
  have taken : TakenForFloat "-0x1e".toList := ⟨⟨'e', by decide, rfl⟩, by decide⟩
  obtain ⟨rational, imaginary, -⟩ := normalizeNode_suffixed_integer ctx isRead 1 0
  obtain ⟨-, -, refused⟩ := normalizeNode_suffixed_integer ctx isSigned 1 0
  exact ⟨isRead, plain, rational, imaginary plain, isSigned, taken, refused taken⟩

/-- With the radix letter in upper case the same number is no imaginary literal. -/
theorem not_imaginary_of_upper_radix :
    let ctx : Context := { filename := "a.rb", lineOffset := 0, charset := ⟨.utf8, false⟩ }
    integer? "0X1E" = some 30 ∧
      normalizeNode ctx ⟨"@imaginary", [.str "0X1Ei", .pos 1 0]⟩ =
        .error (.malformed "@imaginary" (.invalidNumber .imaginary "0X1Ei")) ∧
      ¬ ∀ (ctx : Context) (text : String) (v : Int) (line column : Nat), integer? text = some v →
        normalizeNode ctx ⟨"@imaginary", [.str (text ++ "i"), .pos line column]⟩ =
          .ok ⟨"lit", [.imaginary ("(0+" ++ toString v ++ "i)")], some (ctx.line line), none⟩ := by
  intro ctx
  have isRead : integer? "0X1E" = some 30 := by decide
  have refused : normalizeNode ctx ⟨"@imaginary", [.str "0X1Ei", .pos 1 0]⟩ =
      .error (.malformed "@imaginary" (.invalidNumber .imaginary "0X1Ei")) := by
    have imaginary : rule? "@imaginary" = some imaginaryRule := rfl
    exact normalizeNode_unread imaginary (by decide) (by decide) ctx 1 0
  refine ⟨isRead, refused, fun all => ?_⟩
  have claimed := all ctx "0X1E" 30 1 0 isRead
  rw [show "0X1E" ++ "i" = "0X1Ei" from rfl, refused] at claimed
  cases claimed

end Rules

end RubyNormalForm
