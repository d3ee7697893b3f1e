import Mathlib.Algebra.Order.Field.Rat
import Mathlib.Data.List.Basic
import Mathlib.Data.List.TakeWhile
import Mathlib.Tactic.NormNum
import RubyNormalForm.Literal.Number

/-!
# Rational literals

A rational literal is shown as a fraction in lowest terms. Euclid's algorithm works with remainders
that may be negative, so what it finds is a greatest common divisor up to sign; that is enough to
reduce a fraction.

The value of a decimal is said here without the reader: the digits on both sides of the point make
one integer, and every digit after the point divides it by ten. The reader divides by ten for every
character after the point instead. A sign may stand there if no digit stands before the point, and
it is then counted as a digit. With no sign after the point, and fewer than 2 ^ 32 digits, the value
is exact.
-/

namespace RubyNormalForm.Literal

/-! ### Lowest terms -/

/-- Euclid's algorithm finds the greatest common divisor up to its sign. -/
theorem natAbs_euclid (a b : Int) : (euclid a b).natAbs = Nat.gcd a.natAbs b.natAbs := by
  fun_induction euclid a b with
  | case1 a => simp
  | case2 a b _ ih => rw [ih, Int.natAbs_tmod, Nat.gcd_comm, ← Nat.gcd_rec, Nat.gcd_comm]

theorem commonDivisor_eq_gcd (a b : Int) : commonDivisor a b = Nat.gcd a.natAbs b.natAbs := by
  rw [commonDivisor, natAbs_euclid]

/-- The text of a fraction as it stands. -/
def ratioText (p : Int) (q : Nat) : String :=
  "(" ++ toString p ++ "/" ++ toString q ++ ")"

/-- Dividing by the common divisor gives the fraction of the same value in lowest terms. -/
theorem exists_fractionText (n : Int) {d : Nat} (positive : 0 < d) :
    ∃ (p : Int) (q : Nat), fractionText n d = ratioText p q ∧ 0 < q ∧ Nat.gcd p.natAbs q = 1 ∧
      (p : ℚ) / q = n / d := by
  have common : commonDivisor n d = (Nat.gcd n.natAbs d : Nat) := by
    rw [commonDivisor_eq_gcd, Int.natAbs_natCast]
  have divisor : 0 < Nat.gcd n.natAbs d := Nat.gcd_pos_of_pos_right _ positive
  generalize isGcd : Nat.gcd n.natAbs d = g at common divisor
  have left : (g : Int) ∣ n := Int.natCast_dvd.2 (isGcd ▸ Nat.gcd_dvd_left _ _)
  have right : g ∣ d := isGcd ▸ Nat.gcd_dvd_right _ _
  obtain ⟨p, rfl⟩ := left
  obtain ⟨q, rfl⟩ := right
  have nonzero : (g : Int) ≠ 0 := by omega
  refine ⟨p, q, ?_, Nat.pos_of_mul_pos_left positive, ?_, ?_⟩
  · rw [fractionText, common, ratioText]
    simp only [Int.natCast_mul, Int.mul_tdiv_cancel_left _ nonzero]
    rfl
  · rw [Int.natAbs_mul, Int.natAbs_natCast, Nat.gcd_mul_left] at isGcd
    exact Nat.eq_of_mul_eq_mul_left divisor (by omega)
  · have divides : (g : ℚ) ≠ 0 := by exact_mod_cast nonzero
    push_cast
    rw [mul_div_mul_left _ _ divides]

/-! ### Decimal numerals -/

/-- Whether a character is a sign. -/
def isSign (c : Char) : Bool :=
  c == '+' || c == '-'

/-- An optional sign and digits, of which there is at least one. -/
structure IsNumeral (text sign digits : List Char) : Prop where
  split : text = sign ++ digits
  optional : sign ∈ [[], ['+'], ['-']]
  isDigits : ∀ c ∈ digits, c.isDigit = true
  present : digits ≠ []

/-- The integer that characters write: their digits in base ten, with a minus sign if there is one
among them. -/
def writtenInteger (text : List Char) : Int :=
  let magnitude : Int := Nat.ofDigitChars 10 (text.filter Char.isDigit) 0
  if '-' ∈ text then -magnitude else magnitude

theorem digitValue?_ten (c : Char) :
    digitValue? 10 c = if c.isDigit then some (c.toNat - '0'.toNat) else none := by
  rw [digitValue?]
  by_cases isDigit : c.isDigit = true
  · have range : 48 ≤ c.toNat ∧ c.toNat ≤ 57 := Char.isDigit_iff_toNat.1 isDigit
    simp [isDigit]
    omega
  · simp [isDigit]
    omega

theorem foldl_digits (digits : List Char) (start : Nat) :
    (digits.mapM (digitValue? 10)).map (·.foldl (fun n d => n * 10 + d) start) =
      if digits.all Char.isDigit then some (Nat.ofDigitChars 10 digits start) else none := by
  induction digits generalizing start with
  | nil => rfl
  | cons c rest ih =>
    rw [List.mapM_cons, digitValue?_ten]
    by_cases isDigit : c.isDigit = true
    · have others := ih (start * 10 + (c.toNat - '0'.toNat))
      simp only [isDigit, if_true, List.all_cons, Bool.true_and, Nat.ofDigitChars_cons,
        Nat.mul_comm 10 start]
      rw [← others]
      cases rest.mapM (digitValue? 10) <;> rfl
    · simp [isDigit]

/-- A numeral is read in base ten, and only digits are read. -/
theorem natural?_ten_eq_some {digits : List Char} {n : Nat} :
    natural? 10 digits = some n ↔
      digits ≠ [] ∧ (∀ c ∈ digits, c.isDigit = true) ∧ Nat.ofDigitChars 10 digits 0 = n := by
  rw [natural?, foldl_digits]
  split
  · simp_all
  · split <;> simp_all

/-- Characters before digits tell the sign of the integer, and nothing else of it. -/
theorem writtenInteger_append {sign digits : List Char} (noDigit : ∀ c ∈ sign, c.isDigit = false)
    (isDigits : ∀ c ∈ digits, c.isDigit = true) :
    writtenInteger (sign ++ digits) =
      let magnitude : Int := Nat.ofDigitChars 10 digits 0
      if '-' ∈ sign then -magnitude else magnitude := by
  have noMinus : '-' ∉ digits := fun member => absurd (isDigits _ member) (by decide)
  have none : sign.filter Char.isDigit = [] := by simpa using noDigit
  simp [writtenInteger, noMinus, none, List.filter_eq_self.2 isDigits]

/-- A sign at the front is taken off before the rest is read. -/
theorem signed?_cases (read : List Char → Option Nat) (text : List Char) :
    (∃ rest, text = '-' :: rest ∧ signed? read text = (read rest).map fun n : Nat => -(n : Int)) ∨
    (∃ rest, text = '+' :: rest ∧ signed? read text = (read rest).map Int.ofNat) ∨
    signed? read text = (read text).map Int.ofNat := by
  unfold signed?
  split
  · rename_i rest
    exact .inl ⟨rest, rfl, by cases read rest <;> rfl⟩
  · exact .inr (.inl ⟨_, rfl, rfl⟩)
  · exact .inr (.inr rfl)

theorem exists_isNumeral_of_decimal? {text : List Char} {n : Int} (found : decimal? text = some n) :
    ∃ sign digits, IsNumeral text sign digits := by
  rw [decimal?] at found
  obtain ⟨digits, rfl, isRead⟩ | ⟨digits, rfl, isRead⟩ | isRead := signed?_cases (natural? 10) text
  all_goals
    rw [isRead, Option.map_eq_some_iff] at found
    obtain ⟨m, isNatural, -⟩ := found
    obtain ⟨present, isDigits, -⟩ := natural?_ten_eq_some.1 isNatural
  · exact ⟨['-'], digits, rfl, by simp, isDigits, present⟩
  · exact ⟨['+'], digits, rfl, by simp, isDigits, present⟩
  · exact ⟨[], text, rfl, by simp, isDigits, present⟩

/-- An optional sign and digits are read as the integer that they write. -/
theorem IsNumeral.decimal?_eq {text sign digits : List Char}
    (numeral : IsNumeral text sign digits) : decimal? text = some (writtenInteger text) := by
  obtain ⟨rfl, optional, isDigits, present⟩ := numeral
  have read : natural? 10 digits = some (Nat.ofDigitChars 10 digits 0) :=
    natural?_ten_eq_some.2 ⟨present, isDigits, rfl⟩
  simp only [List.mem_cons, List.not_mem_nil, or_false] at optional
  obtain rfl | rfl | rfl := optional
  all_goals rw [writtenInteger_append (by simp) isDigits, decimal?]
  · rw [List.nil_append]
    obtain ⟨rest, rfl, -⟩ | ⟨rest, rfl, -⟩ | isRead := signed?_cases (natural? 10) digits
    · exact absurd (isDigits '-' (by simp)) (by decide)
    · exact absurd (isDigits '+' (by simp)) (by decide)
    · rw [isRead, read]
      rfl
  · rw [List.singleton_append, signed?, read]
    rfl
  · rw [List.singleton_append, signed?, read]
    rfl

/-- How many digits there are among characters. -/
def digitCount (text : List Char) : Nat :=
  text.countP Char.isDigit

/-- At the end of a numeral stand digits, and before them at most one sign. -/
theorem IsNumeral.length_of_suffix {text sign digits tail : List Char}
    (numeral : IsNumeral text sign digits) (isTail : tail <:+ text) :
    tail.length = digitCount tail + tail.countP isSign ∧ tail.countP isSign ≤ 1 := by
  obtain ⟨rfl, optional, isDigits, -⟩ := numeral
  have noSign : digits.countP isSign = 0 := by
    rw [List.countP_eq_zero]
    intro c member isSigned
    have isDigit := isDigits c member
    simp only [isSign, Bool.or_eq_true, beq_iff_eq] at isSigned
    obtain rfl | rfl := isSigned <;> cases isDigit
  have signs : sign.countP isSign ≤ 1 ∧ ∀ c ∈ sign, c.isDigit = false ∧ isSign c = true := by
    simp only [List.mem_cons, List.not_mem_nil, or_false] at optional
    obtain rfl | rfl | rfl := optional <;> simp [isSign]
  constructor
  · rw [List.length_eq_countP_add_countP Char.isDigit, digitCount]
    congr 1
    refine List.countP_congr fun c member => ?_
    obtain inSign | inDigits := List.mem_append.1 (isTail.subset member)
    · simp [signs.2 c inSign]
    · have unsigned := List.countP_eq_zero.1 noSign c inDigits
      simp [isDigits c inDigits, unsigned]
  · have atMost := isTail.sublist.countP_le (p := isSign)
    rw [List.countP_append, noSign] at atMost
    omega

/-! ### Underscores and the point -/

theorem withoutUnderscores_append (a b : List Char) :
    withoutUnderscores (a ++ b) = withoutUnderscores a ++ withoutUnderscores b :=
  List.filter_append a b

theorem mem_withoutUnderscores {c : Char} {text : List Char} :
    c ∈ withoutUnderscores text ↔ c ∈ text ∧ c ≠ '_' := by
  simp [withoutUnderscores]

theorem digitCount_withoutUnderscores (text : List Char) :
    digitCount (withoutUnderscores text) = digitCount text := by
  rw [digitCount, withoutUnderscores, List.countP_filter, digitCount]
  refine List.countP_congr fun c _ => ?_
  by_cases isUnderscore : c = '_' <;> simp [isUnderscore]

theorem writtenInteger_withoutUnderscores (text : List Char) :
    writtenInteger (withoutUnderscores text) = writtenInteger text := by
  have digits : (withoutUnderscores text).filter Char.isDigit = text.filter Char.isDigit := by
    rw [withoutUnderscores, List.filter_filter]
    refine List.filter_congr fun c _ => ?_
    by_cases isUnderscore : c = '_' <;> simp [isUnderscore]
  simp [writtenInteger, digits, mem_withoutUnderscores]

theorem fraction?_integer {text : List Char} (noPoint : '.' ∉ text) :
    fraction? text = (signed? magnitude? text).map fun n => (n, 1) := by
  have passed : text.dropWhile (· != '.') = [] := by
    rw [List.dropWhile_eq_nil_iff]
    intro c member
    simp only [bne_iff_ne]
    rintro rfl
    exact noPoint member
  rw [fraction?, passed]

/-- The text is read as a numeral without its first point. -/
theorem fraction?_decimal {whole : List Char} (noPoint : '.' ∉ whole) (decimals : List Char) :
    fraction? (whole ++ '.' :: decimals) =
      (decimal? (whole ++ decimals)).map fun n => (n, denominatorOf decimals) := by
  have before : ∀ c ∈ whole, (c != '.') = true := by
    intro c member
    simp only [bne_iff_ne]
    rintro rfl
    exact noPoint member
  rw [fraction?, List.dropWhile_append_of_pos before, List.takeWhile_append_of_pos before]
  simp

/-! ### Exact values -/

theorem withoutLast?_eq_some {last : Char} {text number : List Char} :
    withoutLast? last text = some number ↔ text = number ++ [last] := by
  rw [withoutLast?]
  constructor
  · intro found
    split at found
    · rename_i isLast
      cases found
      exact (List.dropLast_append_getLast? last (by simpa using isLast)).symm
    · cases found
  · rintro rfl
    simp

/-- The value of a decimal: the digits on both sides of its point as one integer, over ten to the
number of digits after the point. -/
def exactValue (whole decimals : List Char) : ℚ :=
  writtenInteger (whole ++ decimals) / 10 ^ digitCount decimals

theorem div_pow_ten_inj {n : Int} {i j : Nat} :
    (n : ℚ) / 10 ^ i = n / 10 ^ j ↔ n = 0 ∨ i = j := by
  by_cases isZero : n = 0
  · simp [isZero]
  · have nonzero : (n : ℚ) ≠ 0 := by exact_mod_cast isZero
    rw [div_eq_mul_inv, div_eq_mul_inv, mul_right_inj' nonzero, inv_inj,
      pow_right_inj₀ (by norm_num) (by norm_num)]
    simp [isZero]

theorem rational?_eq_some {text : List Char} {shown : String} :
    rational? text = some shown ↔ ∃ number n d, text = number ++ ['r'] ∧
      fraction? (withoutUnderscores number) = some (n, d) ∧ fractionText n d = shown := by
  simp only [rational?, Option.bind_eq_some_iff, Option.map_eq_some_iff, withoutLast?_eq_some,
    Prod.exists]
  constructor
  · rintro ⟨number, isText, n, d, isFraction, isShown⟩
    exact ⟨number, n, d, isText, isFraction, isShown⟩
  · rintro ⟨number, n, d, isText, isFraction, isShown⟩
    exact ⟨number, isText, n, d, isFraction, isShown⟩

theorem denominator_pos {text : List Char} {n : Int} {d : Nat}
    (found : fraction? text = some (n, d)) : 0 < d := by
  unfold fraction? at found
  split at found
  · obtain ⟨m, -, same⟩ := Option.map_eq_some_iff.1 found
    cases same
    exact Nat.one_pos
  · obtain ⟨m, -, same⟩ := Option.map_eq_some_iff.1 found
    cases same
    exact Nat.pow_pos (by decide)

/-- Without a point, a rational literal has the value of the integer literal. -/
theorem value_of_integer {number : List Char} {n : Int} {d : Nat} (noPoint : '.' ∉ number)
    (found : fraction? (withoutUnderscores number) = some (n, d)) :
    integer? (String.ofList number) = some n ∧ d = 1 := by
  have clean : '.' ∉ withoutUnderscores number := fun member =>
    noPoint (mem_withoutUnderscores.1 member).1
  rw [fraction?_integer clean, Option.map_eq_some_iff] at found
  obtain ⟨m, isRead, same⟩ := found
  cases same
  rw [integer?, String.toList_ofList]
  exact ⟨isRead, rfl⟩

/-- With a point, the reader divides by ten for every character after it but underscores. -/
theorem value_of_decimal {whole decimals : List Char} {n : Int} {d : Nat} (noPoint : '.' ∉ whole)
    (found : fraction? (withoutUnderscores (whole ++ '.' :: decimals)) = some (n, d)) :
    n = writtenInteger (whole ++ decimals) ∧
      d = 10 ^ ((withoutUnderscores decimals).length % 2 ^ 32) ∧
      ((withoutUnderscores decimals).length % 2 ^ 32 = digitCount decimals ↔
        (∀ c ∈ decimals, isSign c = false) ∧ digitCount decimals < 2 ^ 32) := by
  have clean : '.' ∉ withoutUnderscores whole := fun member =>
    noPoint (mem_withoutUnderscores.1 member).1
  have cut : withoutUnderscores (whole ++ '.' :: decimals) =
      withoutUnderscores whole ++ '.' :: withoutUnderscores decimals := by
    rw [withoutUnderscores_append]
    rfl
  rw [cut, fraction?_decimal clean, Option.map_eq_some_iff, ← withoutUnderscores_append] at found
  obtain ⟨m, isRead, same⟩ := found
  cases same
  obtain ⟨sign, digits, numeral⟩ := exists_isNumeral_of_decimal? isRead
  refine ⟨?_, rfl, ?_⟩
  · rw [numeral.decimal?_eq, Option.some.injEq] at isRead
    rw [← isRead, writtenInteger_withoutUnderscores]
  · -- at most one character after the point is a sign, and all others are digits
    have isTail : withoutUnderscores decimals <:+ withoutUnderscores (whole ++ decimals) := by
      rw [withoutUnderscores_append]
      exact List.suffix_append _ _
    obtain ⟨length, atMost⟩ := numeral.length_of_suffix isTail
    have noSign : (withoutUnderscores decimals).countP isSign = 0 ↔
        ∀ c ∈ decimals, isSign c = false := by
      simp only [List.countP_eq_zero, mem_withoutUnderscores, Bool.not_eq_true, and_imp]
      refine forall₂_congr fun c _ => ⟨fun plain => ?_, fun plain _ => plain⟩
      by_cases isUnderscore : c = '_'
      · rw [isUnderscore]
        rfl
      · exact plain isUnderscore
    rw [digitCount_withoutUnderscores] at length
    rw [length, ← noSign]
    omega

/-- Rational literals are in lowest terms, and their values are exact but for what is counted as a
digit after the point. For every text that is accepted the result is a fraction `(p/q)` with a
positive denominator and no common divisor. Without a point its value is that of the integer
literal. With a point it is the integer of the digits on both sides, over ten to the number of
characters after the point, counted modulo 2 ^ 32. That is the exact value of the decimal if and
only if the integer is zero, or no sign stands after the point and fewer than 2 ^ 32 digits do.
Every decimal with an optional sign in front, any number of digits on either side of the point, at
least one of them, and underscores anywhere is accepted. -/
theorem rational?_exact (text : List Char) :
    (∀ shown : String, rational? text = some shown →
      ∃ (number : List Char) (p : Int) (q : Nat), text = number ++ ['r'] ∧
        shown = ratioText p q ∧ 0 < q ∧ Nat.gcd p.natAbs q = 1 ∧
        ('.' ∉ number → ∃ v, integer? (String.ofList number) = some v ∧ (p : ℚ) / q = v) ∧
        ∀ whole decimals, number = whole ++ '.' :: decimals → '.' ∉ whole →
          (p : ℚ) / q = writtenInteger (whole ++ decimals) /
            10 ^ ((withoutUnderscores decimals).length % 2 ^ 32) ∧
          ((p : ℚ) / q = exactValue whole decimals ↔
            writtenInteger (whole ++ decimals) = 0 ∨
              (∀ c ∈ decimals, isSign c = false) ∧ digitCount decimals < 2 ^ 32)) ∧
    ∀ number sign whole decimals : List Char, text = number ++ ['r'] →
      sign ∈ [[], ['+'], ['-']] → (∀ c ∈ whole ++ decimals, c.isDigit = true) →
      whole ++ decimals ≠ [] → withoutUnderscores number = sign ++ whole ++ '.' :: decimals →
        ∃ shown, rational? text = some shown := by
  constructor
  · intro shown accepted
    obtain ⟨number, n, d, isText, isFraction, rfl⟩ := rational?_eq_some.1 accepted
    obtain ⟨p, q, isShown, positive, lowest, value⟩ :=
      exists_fractionText n (denominator_pos isFraction)
    refine ⟨number, p, q, isText, isShown, positive, lowest, ?_, ?_⟩
    · intro noPoint
      obtain ⟨isInteger, rfl⟩ := value_of_integer noPoint isFraction
      exact ⟨n, isInteger, by simpa using value⟩
    · rintro whole decimals rfl noPoint
      obtain ⟨rfl, rfl, counted⟩ := value_of_decimal noPoint isFraction
      rw [Nat.cast_pow, Nat.cast_ofNat] at value
      refine ⟨value, ?_⟩
      rw [value, exactValue, div_pow_ten_inj, counted]
  · intro number sign whole decimals isText optional isDigits present clean
    have noPoint : '.' ∉ sign ++ whole := by
      intro member
      obtain inSign | inWhole := List.mem_append.1 member
      · simp only [List.mem_cons, List.not_mem_nil, or_false] at optional
        obtain rfl | rfl | rfl := optional <;> simp at inSign
      · exact absurd (isDigits '.' (by simp [inWhole])) (by decide)
    have numeral : IsNumeral (sign ++ whole ++ decimals) sign (whole ++ decimals) :=
      ⟨List.append_assoc _ _ _, optional, isDigits, present⟩
    have isFraction : fraction? (withoutUnderscores number) =
        some (writtenInteger (sign ++ whole ++ decimals), denominatorOf decimals) := by
      rw [clean, fraction?_decimal noPoint, numeral.decimal?_eq, Option.map_some]
    exact ⟨_, rational?_eq_some.2 ⟨number, _, _, isText, isFraction, rfl⟩⟩

/-- A signed decimal with underscores on both sides of its point. -/
theorem rational?_exact_between_underscores :
    rational? "-1_0.5_0r".toList = some (ratioText (-21) 2) ∧
      exactValue "-1_0".toList "5_0".toList = -21 / 2 ∧
      (∃ (p : Int) (q : Nat), ratioText (-21) 2 = ratioText p q ∧ 0 < q ∧
        Nat.gcd p.natAbs q = 1 ∧ (p : ℚ) / q = exactValue "-1_0".toList "5_0".toList) ∧
      ∃ shown, rational? "-1_0.5_0r".toList = some shown := by
  have shown : rational? "-1_0.5_0r".toList = some (ratioText (-21) 2) := by
    decide +kernel
  have isText : "-1_0.5_0r".toList = "-1_0".toList ++ '.' :: "5_0".toList ++ ['r'] := by decide
  have exact : exactValue "-1_0".toList "5_0".toList = -21 / 2 := by
    have written : writtenInteger ("-1_0".toList ++ "5_0".toList) = -1050 := by decide
    have digits : digitCount "5_0".toList = 2 := by decide
    rw [exactValue, written, digits]
    norm_num
  obtain ⟨values, accepts⟩ := rational?_exact "-1_0.5_0r".toList
  refine ⟨shown, exact, ?_, ?_⟩
  · obtain ⟨number, p, q, isNumber, isShown, positive, lowest, -, value⟩ := values _ shown
    have same : number = "-1_0".toList ++ '.' :: "5_0".toList :=
      List.append_left_injective ['r'] (isNumber.symm.trans isText)
    have unsigned : ∀ c ∈ "5_0".toList, isSign c = false := by simp [isSign]
    have plain := (value _ _ same (by decide)).2.2 (.inr ⟨unsigned, by decide⟩)
    exact ⟨p, q, isShown, positive, lowest, plain⟩
  · exact accepts _ ['-'] ['1', '0'] ['5', '0'] isText (by decide) (by simp) (by decide) (by decide)

/-- A sign after the point is counted as a digit: `.-5` is read as five hundredths. -/
theorem not_exact_of_sign_after_point :
    rational? ".-5r".toList = some (ratioText (-1) 20) ∧ exactValue [] "-5".toList = -1 / 2 ∧
      ¬ ∀ (whole decimals : List Char) (p : Int) (q : Nat), '.' ∉ whole →
        rational? (whole ++ '.' :: decimals ++ ['r']) = some (ratioText p q) →
        (p : ℚ) / q = exactValue whole decimals := by
  have shown : rational? ".-5r".toList = some (ratioText (-1) 20) := by
    decide +kernel
  have exact : exactValue [] "-5".toList = -1 / 2 := by
    have written : writtenInteger "-5".toList = -5 := by decide
    have digits : digitCount "-5".toList = 1 := by decide
    rw [exactValue, List.nil_append, written, digits]
    norm_num
  refine ⟨shown, exact, fun all => ?_⟩
  have same := all [] "-5".toList (-1) 20 (by simp) shown
  rw [exact] at same
  norm_num at same

end RubyNormalForm.Literal
