import Mathlib.Algebra.Ring.Int.Parity
import RubyNormalForm.Proofs.Literal.Rational
import RubyNormalForm.Proofs.Rules.Locality

/-!
# Minus signs before numbers

A minus sign before a literal number is folded into the number. What a number becomes under any
number of signs is found here in closed form for each kind of number, from what one sign does.

Integers of up to 128 bits are negated as words, larger ones by their digits. The two agree with
the number itself except at the end of the range: the opposite of the least word does not fit, and
the opposite of that number in digits does but stays in digits. The texts of rational and imaginary
numbers are edited instead. A minus sign that is already there, or a zero, is not looked at, so that
only one sign before a positive fraction gives the text of the opposite fraction.
-/

namespace RubyNormalForm

namespace Rules

open Raw (Node)

/-! ### Any number of signs -/

/-- The node under minus signs. -/
def minuses : Nat → Node → Node
  | 0, n => n
  | k + 1, n => ⟨"unary", [.sym "-@", (minuses k n).toRaw]⟩

/-- The normal form of a number on a line. -/
def numberForm (item : Item) (line : Nat) : Form :=
  ⟨"lit", [item], some line, none⟩

theorem settle_numberForm (ctx : Context) (n : Node) (item : Item) (line : Nat) :
    settle ctx n (numberForm item line) = numberForm item line := rfl

/-- A token of a number is a literal on the line of the token. -/
theorem normalizeNode_number {tag : String} {kind : NumberKind} {read : String → Option Item}
    (found : rule? tag = some (numberRule kind read)) (isToken : tag.toList.head? = some '@')
    {text : String} {item : Item} (isRead : read text = some item) (ctx : Context)
    (line column : Nat) :
    normalizeNode ctx ⟨tag, [.str text, .pos line column]⟩ =
      .ok (numberForm item (ctx.line line)) := by
  have isLocal : Rule.LocalAt (numberRule kind read) ctx ⟨tag, [.str text, .pos line column]⟩ :=
    fun _ _ _ => rfl
  rw [normalizeNode_of_localAt found isLocal]
  simp [numberRule, token, Node.isToken, isToken, Node.stringAt, Node.positionAt, Node.slot, isRead]
  rfl

/-- One more sign negates the number. -/
theorem normalizeNode_minus {ctx : Context} {n : Node} {item opposite : Item} {line : Nat}
    (isNumber : normalizeNode ctx n = .ok (numberForm item line))
    (isOpposite : negated? item = some opposite) :
    normalizeNode ctx ⟨"unary", [.sym "-@", n.toRaw]⟩ = .ok (numberForm opposite line) := by
  have isLocal : Rule.LocalAt unaryRule ctx ⟨"unary", [.sym "-@", n.toRaw]⟩ := by
    intro inner inner' agree
    have operand := value?_congr agree ctx (Node.size_slot_lt ⟨"unary", [.sym "-@", n.toRaw]⟩ 1)
    simp only [unaryRule, operand]
  have found : rule? "unary" = some unaryRule := rfl
  have operand : value? normalizeNode ctx n.toRaw = .ok (some (numberForm item line)) := by
    rw [Node.toRaw, value?, isNumber]
    rfl
  have folded : unary "-@" (some (numberForm item line)) = numberForm opposite line := by
    simp [unary, negatedLiteral?, numberForm, Form.is, isOpposite]
  rw [normalizeNode_of_localAt found isLocal]
  simp [unaryRule, Node.slot, name, operand, folded]
  exact congrArg _ (settle_numberForm _ _ _ _)

/-- The number under any number of signs, from what each sign makes of it. -/
theorem normalizeNode_minuses {ctx : Context} {n : Node} {line : Nat} (items : Nat → Item)
    (isNumber : normalizeNode ctx n = .ok (numberForm (items 0) line))
    (step : ∀ k, negated? (items k) = some (items (k + 1))) (k : Nat) :
    normalizeNode ctx (minuses k n) = .ok (numberForm (items k) line) := by
  induction k with
  | zero => exact isNumber
  | succ k ih => exact normalizeNode_minus ih (step k)

/-- A token of a number under any number of signs. -/
theorem normalizeNode_minuses_token {tag : String} {kind : NumberKind}
    {read : String → Option Item} (found : rule? tag = some (numberRule kind read))
    (isToken : tag.toList.head? = some '@') (items : Nat → Item) {text : String}
    (isRead : read text = some (items 0)) (step : ∀ k, negated? (items k) = some (items (k + 1)))
    (ctx : Context) (line column k : Nat) :
    normalizeNode ctx (minuses k ⟨tag, [.str text, .pos line column]⟩) =
      .ok (numberForm (items k) (ctx.line line)) :=
  normalizeNode_minuses items (normalizeNode_number found isToken isRead ctx line column) step k

/-! ### The texts of integers -/

theorem toString_of_nonneg {n : Int} (nonneg : 0 ≤ n) :
    (toString n).toList = Nat.toDigits 10 n.toNat := by
  rw [Int.toString_eq_repr, Int.repr_eq_if, if_pos nonneg, Nat.toList_repr]

theorem toString_of_neg {n : Int} (negative : n < 0) :
    (toString n).toList = '-' :: Nat.toDigits 10 (-n).toNat := by
  rw [Int.toString_eq_repr, Int.repr_eq_if, if_neg (by omega), String.toList_append,
    Nat.toList_repr]
  rfl

theorem minus_not_mem_toDigits (n : Nat) : '-' ∉ Nat.toDigits 10 n := fun member =>
  absurd (Nat.isDigit_of_mem_toDigits (by decide) (by decide) member) (by decide)

/-- Taking a minus sign off, or putting one on, gives the digits of the opposite. -/
theorem toggleMinus_toString {n : Int} (nonzero : n ≠ 0) :
    toggleMinus (toString n) = toString (-n) := by
  rw [← String.toList_inj, toggleMinus]
  obtain negative | positive := Int.lt_or_gt_of_ne nonzero
  · rw [toString_of_neg negative, toString_of_nonneg (by omega)]
    exact String.toList_ofList
  · have digits := toString_of_nonneg (Int.le_of_lt positive)
    split
    · rename_i rest isSigned
      rw [digits] at isSigned
      exact absurd (isSigned ▸ List.mem_cons_self) (minus_not_mem_toDigits n.toNat)
    · rw [String.toList_append, digits, toString_of_neg (by omega), Int.neg_neg]
      rfl

/-- The text of an integer holds a minus sign if the integer is negative, and no other. -/
theorem count_minus_toString (n : Int) :
    (toString n).toList.count '-' = if n < 0 then 1 else 0 := by
  split
  · rename_i negative
    rw [toString_of_neg negative, List.count_cons_self,
      List.count_eq_zero.2 (minus_not_mem_toDigits _)]
  · rename_i nonneg
    rw [toString_of_nonneg (by omega), List.count_eq_zero.2 (minus_not_mem_toDigits _)]

/-! ### Integers -/

/-- The least word of 128 bits. -/
def leastWord : Int :=
  -2 ^ 127

theorem opposite128_leastWord : Number.opposite128 leastWord = leastWord := by decide

theorem opposite128_of_fits {n : Int} (fits : Number.fits128 n = true) (notLeast : n ≠ leastWord) :
    Number.opposite128 n = -n := by
  simp only [Number.fits128, Bool.and_eq_true, decide_eq_true_eq] at fits
  rw [leastWord] at notLeast
  exact Int.bmod_eq_of_le (by omega) (by omega)

theorem fits128_neg {n : Int} (fits : Number.fits128 n = true) (notLeast : n ≠ leastWord) :
    Number.fits128 (-n) = true ∧ -n ≠ leastWord := by
  simp only [Number.fits128, Bool.and_eq_true, decide_eq_true_eq] at fits ⊢
  rw [leastWord] at notLeast ⊢
  omega

/-- What an integer literal becomes under minus signs. -/
def integerUnder (v : Int) (k : Nat) : Item :=
  if Number.fits128 v then .int (if v = leastWord then v else (-1) ^ k * v)
  else .bigInt (toString ((-1) ^ k * v))

theorem integerUnder_leastWord (k : Nat) : integerUnder leastWord k = .int leastWord := by
  have fits : Number.fits128 leastWord = true := by decide
  rw [integerUnder, if_pos fits, if_pos rfl]

theorem integerUnder_word {v : Int} (fits : Number.fits128 v = true) (notLeast : v ≠ leastWord)
    (k : Nat) : integerUnder v k = .int ((-1) ^ k * v) := by
  rw [integerUnder, if_pos fits, if_neg notLeast]

theorem integerUnder_digits {v : Int} (large : ¬ Number.fits128 v = true) (k : Nat) :
    integerUnder v k = .bigInt (toString ((-1) ^ k * v)) := by
  rw [integerUnder, if_neg large]

theorem negated?_integerUnder (v : Int) (k : Nat) :
    negated? (integerUnder v k) = some (integerUnder v (k + 1)) := by
  have turned : (-1) ^ (k + 1) * v = -((-1) ^ k * v) := by
    rw [pow_succ', mul_assoc, neg_one_mul]
  by_cases fits : Number.fits128 v = true
  · obtain rfl | notLeast := eq_or_ne v leastWord
    · rw [integerUnder_leastWord, integerUnder_leastWord, negated?, opposite128_leastWord]
    · -- without the least word the words of 128 bits are closed under negation
      have word : Number.opposite128 ((-1) ^ k * v) = -((-1) ^ k * v) := by
        obtain even | odd := neg_one_pow_eq_or Int k
        · rw [even, one_mul, opposite128_of_fits fits notLeast]
        · obtain ⟨fits', notLeast'⟩ := fits128_neg fits notLeast
          rw [odd, neg_one_mul, opposite128_of_fits fits' notLeast']
      rw [integerUnder_word fits notLeast, integerUnder_word fits notLeast, negated?, word, turned]
  · have nonzero : (-1) ^ k * v ≠ 0 := by
      have present : v ≠ 0 := by
        rintro rfl
        exact fits rfl
      exact mul_ne_zero (pow_ne_zero k (by decide)) present
    rw [integerUnder_digits fits, integerUnder_digits fits, negated?,
      toggleMinus_toString nonzero, turned]

theorem ofInteger_word {v : Int} (fits : Number.fits128 v = true) : Item.ofInteger v = .int v := by
  rw [Item.ofInteger, if_pos fits]

theorem ofInteger_digits {v : Int} (large : ¬ Number.fits128 v = true) :
    Item.ofInteger v = .bigInt (toString v) := by
  rw [Item.ofInteger, if_neg large]

/-- An even number of signs changes nothing. -/
theorem integerUnder_of_even {k : Nat} (even : Even k) (v : Int) :
    integerUnder v k = Item.ofInteger v := by
  rw [integerUnder, Item.ofInteger, even.neg_one_pow, one_mul, ite_self]

/-- Digits stay digits, also where the opposite number is a word. -/
theorem integerUnder_past_words {k : Nat} (odd : Odd k) :
    integerUnder (2 ^ 127) k = .bigInt (toString leastWord) := by
  rw [integerUnder_digits (by decide), odd.neg_one_pow, neg_one_mul]
  rfl

/-- The number under signs is the item of its value, except for the opposites of the least word
and of its magnitude. -/
theorem integerUnder_eq_ofInteger (v : Int) (k : Nat) :
    integerUnder v k = Item.ofInteger ((-1) ^ k * v) ↔ ¬ (Odd k ∧ v.natAbs = 2 ^ 127) := by
  obtain even | odd := Nat.even_or_odd k
  · have same := integerUnder_of_even even v
    have notOdd : ¬ Odd k := Nat.not_odd_iff_even.2 even
    rw [even.neg_one_pow, one_mul]
    exact iff_of_true same fun both => notOdd both.1
  · rw [odd.neg_one_pow, neg_one_mul]
    by_cases ends : v.natAbs = 2 ^ 127
    · have differ : integerUnder v k ≠ Item.ofInteger (-v) := by
        obtain rfl | rfl : v = 2 ^ 127 ∨ v = leastWord := by
          rw [leastWord]
          omega
        · rw [integerUnder_past_words odd, ofInteger_word (by decide)]
          nofun
        · rw [integerUnder_leastWord, ofInteger_digits (by decide)]
          nofun
      exact iff_of_false differ (not_not.2 ⟨odd, ends⟩)
    · have same : integerUnder v k = Item.ofInteger (-v) := by
        by_cases fits : Number.fits128 v = true
        · have notLeast : v ≠ leastWord := by
            rintro rfl
            exact ends (by decide)
          rw [integerUnder_word fits notLeast, ofInteger_word (fits128_neg fits notLeast).1,
            odd.neg_one_pow, neg_one_mul]
        · have large : ¬ Number.fits128 (-v) = true := by
            simp only [Number.fits128, Bool.and_eq_true, decide_eq_true_eq] at fits ⊢
            omega
          rw [integerUnder_digits fits, ofInteger_digits large, odd.neg_one_pow, neg_one_mul]
      exact iff_of_true same fun both => ends both.2

/-- An integer literal under any number of signs. -/
theorem normalizeNode_integerUnder (ctx : Context) {text : String} {v : Int}
    (isRead : Literal.integer? text = some v) (line column k : Nat) :
    normalizeNode ctx (minuses k ⟨"@int", [.str text, .pos line column]⟩) =
      .ok (numberForm (integerUnder v k) (ctx.line line)) := by
  have found : rule? "@int" = some integerRule := rfl
  refine normalizeNode_minuses_token found (by decide) (integerUnder v) ?_
    (negated?_integerUnder v) ctx line column k
  rw [isRead, Option.map_some, integerUnder_of_even (by decide)]

/-- Minus signs before an integer literal give the literal of the value with its sign turned, of
whatever size, with two exceptions. Under an odd number of signs `2 ^ 127` stays in digits although
its opposite fits a word, and the least word stays as it is, since its opposite does not fit. -/
theorem normalizeNode_minuses_integer (ctx : Context) {text : String} {v : Int}
    (isRead : Literal.integer? text = some v) (line column k : Nat) :
    ∃ x, normalizeNode ctx (minuses k ⟨"@int", [.str text, .pos line column]⟩) =
        .ok ⟨"lit", [x], some (ctx.line line), none⟩ ∧
      (x = Item.ofInteger ((-1) ^ k * v) ↔ ¬ (Odd k ∧ v.natAbs = 2 ^ 127)) ∧
      (Odd k → v = 2 ^ 127 → x = .bigInt (toString (-2 ^ 127 : Int))) ∧
      (Odd k → v = -2 ^ 127 → x = .int (-2 ^ 127)) := by
  refine ⟨integerUnder v k, normalizeNode_integerUnder ctx isRead line column k,
    integerUnder_eq_ofInteger v k, ?_, ?_⟩
  · rintro odd rfl
    exact integerUnder_past_words odd
  · rintro odd rfl
    exact integerUnder_leastWord k

/-- Three signs before an integer that is larger than a word. -/
theorem normalizeNode_minuses_hexadecimal :
    let ctx : Context := { filename := "a.rb", lineOffset := 0, charset := ⟨.utf8, false⟩ }
    let text := "0xffff_ffff_ffff_ffff_ffff_ffff_ffff_ffff_ff"
    Literal.integer? text = some 87112285931760246646623899502532662132735 ∧
      normalizeNode ctx (minuses 3 ⟨"@int", [.str text, .pos 1 3]⟩) =
        .ok ⟨"lit", [.bigInt "-87112285931760246646623899502532662132735"], some 1, none⟩ := by
  intro ctx text
  have isRead : Literal.integer? text = some 87112285931760246646623899502532662132735 := by
    decide +kernel
  obtain ⟨x, isForm, same, -, -⟩ := normalizeNode_minuses_integer ctx isRead 1 3 3
  have inside : x = .bigInt "-87112285931760246646623899502532662132735" := by
    rw [same.2 (by decide)]
    rfl
  rw [inside] at isForm
  exact ⟨isRead, isForm⟩

/-- The opposite of `2 ^ 127` fits a word and is not written as one. -/
theorem not_word_of_opposite :
    let ctx : Context := { filename := "a.rb", lineOffset := 0, charset := ⟨.utf8, false⟩ }
    let token : Node := ⟨"@int", [.str "170141183460469231731687303715884105728", .pos 1 1]⟩
    normalizeNode ctx (minuses 1 token) =
        .ok ⟨"lit", [.bigInt "-170141183460469231731687303715884105728"], some 1, none⟩ ∧
      Item.ofInteger (-170141183460469231731687303715884105728) =
        .int (-170141183460469231731687303715884105728) ∧
      ¬ ∀ (ctx : Context) (text : String) (v : Int) (line column k : Nat),
        Literal.integer? text = some v →
        normalizeNode ctx (minuses k ⟨"@int", [.str text, .pos line column]⟩) =
          .ok ⟨"lit", [Item.ofInteger ((-1) ^ k * v)], some (ctx.line line), none⟩ := by
  intro ctx token
  have isRead : Literal.integer? "170141183460469231731687303715884105728" = some (2 ^ 127) := by
    decide +kernel
  have isForm : normalizeNode ctx (minuses 1 token) =
      .ok (numberForm (.bigInt (toString leastWord)) 1) := by
    rw [← integerUnder_past_words (by decide : Odd 1)]
    exact normalizeNode_integerUnder ctx isRead 1 1 1
  refine ⟨isForm, rfl, fun all => ?_⟩
  have claimed := all ctx _ _ 1 1 1 isRead
  rw [isForm] at claimed
  cases claimed

/-! ### Rationals -/

open Literal (ratioText)

/-- The text that minus signs make of a fraction. -/
def ratioUnder (p : Int) (q k : Nat) : String :=
  "(" ++ String.ofList (List.replicate k '-') ++ toString p ++ "/" ++ toString q ++ ")"

theorem toList_ratioUnder (p : Int) (q k : Nat) :
    (ratioUnder p q k).toList = '(' :: (List.replicate k '-' ++
      ((toString p).toList ++ '/' :: ((toString q).toList ++ [')']))) := by
  simp [ratioUnder]

theorem ratioUnder_zero (p : Int) (q : Nat) : ratioUnder p q 0 = ratioText p q := by
  simp [ratioUnder, ratioText]

theorem negated?_ratioUnder (p : Int) (q k : Nat) :
    negated? (.rational (ratioUnder p q k)) = some (.rational (ratioUnder p q (k + 1))) := by
  rw [negated?, toList_ratioUnder]
  refine congrArg (fun text => some (Item.rational text)) ?_
  rw [← String.toList_inj]
  simp [toList_ratioUnder, List.replicate_succ]

/-- The text under signs is that of the fraction with its sign turned only for one sign before a
positive fraction, or none. -/
theorem ratioUnder_eq_ratioText (p : Int) (q k : Nat) :
    ratioUnder p q k = ratioText ((-1) ^ k * p) q ↔ k = 0 ∨ k = 1 ∧ 0 < p := by
  have signs : ratioUnder p q k = ratioText ((-1) ^ k * p) q ↔
      List.replicate k '-' ++ (toString p).toList = (toString ((-1) ^ k * p)).toList := by
    rw [← ratioUnder_zero, ← String.toList_inj, toList_ratioUnder, toList_ratioUnder,
      List.cons_inj_right, List.replicate_zero, List.nil_append, ← List.append_assoc,
      List.append_left_inj]
  rw [signs]
  constructor
  · intro same
    -- the text of an integer has at most one sign
    have count := congrArg (List.count '-') same
    rw [List.count_append, List.count_replicate_self, count_minus_toString,
      count_minus_toString] at count
    match k with
    | 0 => exact .inl rfl
    | 1 =>
      rw [pow_one, neg_one_mul] at count
      exact .inr ⟨rfl, by split at count <;> split at count <;> omega⟩
    | k + 2 => split at count <;> split at count <;> omega
  · rintro (rfl | ⟨rfl, positive⟩)
    · simp
    · rw [pow_one, neg_one_mul, toString_of_nonneg (Int.le_of_lt positive),
        toString_of_neg (Int.neg_neg_of_pos positive), Int.neg_neg]
      rfl

/-- A rational literal under any number of signs. -/
theorem normalizeNode_ratioUnder (ctx : Context) {text : String} {p : Int} {q : Nat}
    (isRead : Literal.rational? text.toList = some (ratioText p q)) (line column k : Nat) :
    normalizeNode ctx (minuses k ⟨"@rational", [.str text, .pos line column]⟩) =
      .ok (numberForm (.rational (ratioUnder p q k)) (ctx.line line)) := by
  have found : rule? "@rational" = some rationalRule := rfl
  refine normalizeNode_minuses_token found (by decide) (fun k => .rational (ratioUnder p q k)) ?_
    (negated?_ratioUnder p q) ctx line column k
  rw [isRead, Option.map_some, ratioUnder_zero]

/-! ### Imaginary numbers -/

/-- The text that minus signs make of an imaginary number. -/
def imaginaryUnder (part : String) : Nat → String
  | 0 => "(0+" ++ part ++ "i)"
  | _ + 1 => "(0-" ++ part ++ "i)"

theorem negated?_imaginaryUnder (part : String) (k : Nat) :
    negated? (.imaginary (imaginaryUnder part k)) =
      some (.imaginary (imaginaryUnder part (k + 1))) := by
  cases k with
  | zero =>
    have plus : (imaginaryUnder part 0).toList = '(' :: '0' :: '+' :: (part.toList ++ ['i', ')']) :=
      by simp [imaginaryUnder]
    rw [negated?, plus]
    refine congrArg (fun text => some (Item.imaginary text)) ?_
    rw [← String.toList_inj]
    simp [imaginaryUnder]
  | succ k =>
    have minus : (imaginaryUnder part (k + 1)).toList =
        '(' :: '0' :: '-' :: (part.toList ++ ['i', ')']) := by simp [imaginaryUnder]
    rw [negated?, minus]
    rfl

theorem exists_imaginaryUnder {text : List Char} {shown : String}
    (isRead : Literal.imaginary? text = some shown) : ∃ part, shown = imaginaryUnder part 0 := by
  rw [Literal.imaginary?, Option.bind_eq_some_iff] at isRead
  obtain ⟨number, -, found⟩ := isRead
  split at found
  · obtain ⟨r, -, rfl⟩ := Option.map_eq_some_iff.1 found
    exact ⟨r ++ "*", by simp [imaginaryUnder, String.append_assoc]⟩
  · split at found
    · obtain ⟨x, -, rfl⟩ := Option.map_eq_some_iff.1 found
      exact ⟨x.inspect, rfl⟩
    · obtain ⟨n, -, rfl⟩ := Option.map_eq_some_iff.1 found
      exact ⟨toString n, rfl⟩

/-- An imaginary literal under any number of signs. -/
theorem normalizeNode_imaginaryUnder (ctx : Context) {text part : String}
    (isRead : Literal.imaginary? text.toList = some (imaginaryUnder part 0))
    (line column k : Nat) :
    normalizeNode ctx (minuses k ⟨"@imaginary", [.str text, .pos line column]⟩) =
      .ok (numberForm (.imaginary (imaginaryUnder part k)) (ctx.line line)) := by
  have found : rule? "@imaginary" = some imaginaryRule := rfl
  refine normalizeNode_minuses_token found (by decide)
    (fun k => .imaginary (imaginaryUnder part k)) ?_ (negated?_imaginaryUnder part) ctx line
    column k
  rw [isRead, Option.map_some]

/-- Minus signs are written into the text of a rational or imaginary literal. Every sign before a
rational literal of value `p/q` adds one to its text, which is the text of the fraction with its
sign turned if and only if there is no sign, or one before a positive fraction. One sign before an
imaginary literal changes only the sign between its parts; more signs change nothing more, so that
two of them never give the literal back. -/
theorem normalizeNode_minuses_fraction (ctx : Context) (text : String) (line column : Nat) :
    (∀ shown, Literal.rational? text.toList = some shown →
      ∃ (p : Int) (q : Nat), shown = ratioText p q ∧ 0 < q ∧ Nat.gcd p.natAbs q = 1 ∧ ∀ k,
        normalizeNode ctx (minuses k ⟨"@rational", [.str text, .pos line column]⟩) =
          .ok ⟨"lit", [.rational (ratioUnder p q k)], some (ctx.line line), none⟩ ∧
        (ratioUnder p q k = ratioText ((-1) ^ k * p) q ↔ k = 0 ∨ k = 1 ∧ 0 < p)) ∧
    ∀ shown, Literal.imaginary? text.toList = some shown →
      ∃ part, shown = "(0+" ++ part ++ "i)" ∧
        normalizeNode ctx ⟨"@imaginary", [.str text, .pos line column]⟩ =
          .ok ⟨"lit", [.imaginary shown], some (ctx.line line), none⟩ ∧
        ∀ k, 0 < k →
          normalizeNode ctx (minuses k ⟨"@imaginary", [.str text, .pos line column]⟩) =
            .ok ⟨"lit", [.imaginary ("(0-" ++ part ++ "i)")], some (ctx.line line), none⟩ ∧
          "(0-" ++ part ++ "i)" ≠ shown := by
  constructor
  · intro shown isRead
    obtain ⟨number, n, d, -, isFraction, rfl⟩ := Literal.rational?_eq_some.1 isRead
    obtain ⟨p, q, isShown, positive, lowest, -⟩ :=
      Literal.exists_fractionText n (Literal.denominator_pos isFraction)
    rw [isShown] at isRead
    refine ⟨p, q, isShown, positive, lowest, fun k => ⟨?_, ratioUnder_eq_ratioText p q k⟩⟩
    exact normalizeNode_ratioUnder ctx isRead line column k
  · intro shown isRead
    obtain ⟨part, rfl⟩ := exists_imaginaryUnder isRead
    refine ⟨part, rfl, normalizeNode_imaginaryUnder ctx isRead line column 0, fun k some => ?_⟩
    obtain ⟨more, rfl⟩ := Nat.exists_eq_succ_of_ne_zero (Nat.ne_of_gt some)
    refine ⟨normalizeNode_imaginaryUnder ctx isRead line column (more + 1), fun same => ?_⟩
    have chars := congrArg String.toList same
    simp [imaginaryUnder] at chars

/-- One sign before `1.5r`, and one before `2i`. -/
theorem normalizeNode_minus_fraction :
    let ctx : Context := { filename := "a.rb", lineOffset := 0, charset := ⟨.utf8, false⟩ }
    (Literal.rational? "1.5r".toList = some (ratioText 3 2) ∧
      ∃ (p : Int) (q : Nat), ratioText 3 2 = ratioText p q ∧ 0 < q ∧ Nat.gcd p.natAbs q = 1 ∧
        normalizeNode ctx (minuses 1 ⟨"@rational", [.str "1.5r", .pos 1 1]⟩) =
          .ok ⟨"lit", [.rational (ratioUnder p q 1)], some 1, none⟩) ∧
    Literal.imaginary? "2i".toList = some "(0+2i)" ∧
      ∃ part, "(0+2i)" = "(0+" ++ part ++ "i)" ∧
        normalizeNode ctx (minuses 1 ⟨"@imaginary", [.str "2i", .pos 1 1]⟩) =
          .ok ⟨"lit", [.imaginary ("(0-" ++ part ++ "i)")], some 1, none⟩ := by
  intro ctx
  have isRational : Literal.rational? "1.5r".toList = some (ratioText 3 2) := by
    decide +kernel
  have isImaginary : Literal.imaginary? "2i".toList = some "(0+2i)" := by decide
  obtain ⟨p, q, isShown, positive, lowest, under⟩ :=
    (normalizeNode_minuses_fraction ctx "1.5r" 1 1).1 _ isRational
  obtain ⟨part, isPart, -, under'⟩ := (normalizeNode_minuses_fraction ctx "2i" 1 1).2 _ isImaginary
  exact ⟨⟨isRational, p, q, isShown, positive, lowest, (under 1).1⟩, isImaginary, part, isPart,
    (under' 1 Nat.one_pos).1⟩

/-- Two signs do not cancel out, neither before `1.5r` nor before `2i`. -/
theorem not_cancelled_of_two_minuses :
    let ctx : Context := { filename := "a.rb", lineOffset := 0, charset := ⟨.utf8, false⟩ }
    normalizeNode ctx (minuses 2 ⟨"@rational", [.str "1.5r", .pos 1 2]⟩) =
        .ok ⟨"lit", [.rational "(--3/2)"], some 1, none⟩ ∧
      ratioText ((-1) ^ 2 * 3) 2 = "(3/2)" ∧
      normalizeNode ctx (minuses 2 ⟨"@imaginary", [.str "2i", .pos 1 2]⟩) =
        .ok ⟨"lit", [.imaginary "(0-2i)"], some 1, none⟩ ∧
      Literal.imaginary? "2i".toList = some "(0+2i)" := by
  intro ctx
  have isRational : Literal.rational? "1.5r".toList = some (ratioText 3 2) := by
    decide +kernel
  have isImaginary : Literal.imaginary? "2i".toList = some (imaginaryUnder "2" 0) := by decide
  refine ⟨?_, by decide, normalizeNode_imaginaryUnder ctx isImaginary 1 2 2, by decide⟩
  have isText : ratioUnder 3 2 2 = "(--3/2)" := by decide
  rw [normalizeNode_ratioUnder ctx isRational 1 2 2, isText]
  rfl

end Rules

end RubyNormalForm
