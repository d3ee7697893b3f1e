import Mathlib.Data.List.Basic
import Mathlib.Data.List.Find
import RubyNormalForm.Proofs.Quoting
import RubyNormalForm.Proofs.Raw.Layout

/-!
# Reading tokens

Each token that `Raw.render` writes for a scalar is read back by `Raw.Reader.scalar?`, and the
reader stops exactly behind it. Quoted tokens end by themselves. Bare ones (numbers and plain
symbols) end only because the character after them cannot belong to them, which is what
`Delimited` says of the text behind a token.

Symbols are the delicate case: whether a name is written bare is decided by one list of forms
(`Symbol.isPlain`), and read back by another (`Reader.bareSymbol?`). The two agree on every
name but `=`.
-/

namespace RubyNormalForm.Raw

open Reader

section Span

variable {p : Char → Bool} {front rest : List Char}

/-- A class without delimiters does not have what follows a token. -/
theorem Delimited.head (hr : Delimited rest) (hp : delimiters.any p = false) {c : Char}
    {tail : List Char} (eq : rest = c :: tail) : p c = false := by
  have outside := List.any_eq_false.1 hp c (hr c tail eq)
  simpa using outside

theorem Delimited.takeWhile_eq (hr : Delimited rest) (hp : delimiters.any p = false) :
    rest.takeWhile p = [] := by
  cases rest with
  | nil => rfl
  | cons c tail => rw [List.takeWhile_cons_of_neg]; simp [hr.head hp rfl]

theorem Delimited.dropWhile_eq (hr : Delimited rest) (hp : delimiters.any p = false) :
    rest.dropWhile p = rest := by
  cases rest with
  | nil => rfl
  | cons c tail => rw [List.dropWhile_cons_of_neg]; simp [hr.head hp rfl]

/-- A run of characters of a class ends where the token does. -/
theorem Delimited.takeWhile_append (hr : Delimited rest) (hp : delimiters.any p = false)
    (hf : ∀ c ∈ front, p c = true) : (front ++ rest).takeWhile p = front := by
  rw [List.takeWhile_append_of_pos hf, hr.takeWhile_eq hp, List.append_nil]

theorem Delimited.dropWhile_append (hr : Delimited rest) (hp : delimiters.any p = false)
    (hf : ∀ c ∈ front, p c = true) : (front ++ rest).dropWhile p = rest := by
  rw [List.dropWhile_append_of_pos hf, hr.dropWhile_eq hp]

end Span

/-! ### Numbers -/

theorem spanDigits_append {digits rest : List Char} (hd : ∀ c ∈ digits, c.isDigit = true)
    (hr : Delimited rest) : Number.spanDigits (digits ++ rest) = (digits, rest) := by
  rw [Number.spanDigits, hr.takeWhile_append (by decide) hd, hr.dropWhile_append (by decide) hd]

theorem decimalValue_toDigits (n : Nat) : Number.decimalValue (Nat.toDigits 10 n) = n := by
  have value : Nat.ofDigitChars 10 (Nat.toDigits 10 n) 0 = n := Nat.ofDigitChars_ten_toDigits
  have zero : '0'.toNat = 48 := rfl
  simp only [Nat.ofDigitChars_eq_foldl, zero, Nat.mul_comm] at value
  exact value

/-- The digits of a number are read as an integer. -/
theorem number?_toDigits (negative : Bool) (n : Nat) {rest : List Char} (hr : Delimited rest) :
    number? negative (Nat.toDigits 10 n ++ rest) =
      some (.int (if negative then -n else n), rest) := by
  have digits : ∀ c ∈ Nat.toDigits 10 n, c.isDigit = true := by
    intro c mem
    exact Nat.isDigit_of_mem_toDigits (by decide) (by decide) mem
  have some_digit : (Nat.toDigits 10 n).isEmpty = false := by
    simp [Nat.toDigits_ne_nil]
  simp only [number?, spanDigits_append digits hr, some_digit, decimalValue_toDigits,
    Bool.false_eq_true, if_false]
  split
  case h_1 tail =>
    -- A point would make the number a double, but none follows a token.
    exact absurd (hr '.' tail rfl) (by decide)
  case h_2 => rfl

theorem scalar?_digit {c : Char} (hc : c.isDigit = true) (tail : List Char) :
    scalar? (c :: tail) = number? false (c :: tail) := by
  unfold scalar?
  split
  case h_7 => rfl
  all_goals
    rename_i start
    obtain ⟨rfl, -⟩ := List.cons.inj start
    exact absurd hc (by decide)

theorem scalar?_int (n : Int) {rest : List Char} (hr : Delimited rest) :
    scalar? (render (.int n) ++ rest) = some (.int n, rest) := by
  rw [render, Int.toString_eq_repr, Int.repr_eq_if]
  by_cases h : 0 ≤ n
  · rw [if_pos h, Nat.toList_repr]
    cases digits : Nat.toDigits 10 n.toNat with
    | nil => exact absurd digits Nat.toDigits_ne_nil
    | cons c tail =>
      have first : c.isDigit = true := by
        apply Nat.isDigit_of_mem_toDigits (b := 10) (n := n.toNat) (by decide) (by decide)
        rw [digits]
        exact List.mem_cons_self
      have whole := number?_toDigits false n.toNat hr
      rw [digits] at whole
      rw [List.cons_append, scalar?_digit first, ← List.cons_append, whole]
      simp only [Bool.false_eq_true, if_false, Int.toNat_of_nonneg h]
  · have negative : ("-" ++ (-n).toNat.repr).toList = '-' :: Nat.toDigits 10 (-n).toNat := by
      simp
    rw [if_neg h, negative, List.cons_append, scalar?, number?_toDigits true _ hr]
    simp only [if_true, Int.toNat_of_nonneg (by omega : 0 ≤ -n), Int.neg_neg]

/-! ### Symbols -/

theorem isName_cons {c : Char} {tail : List Char} (h : Symbol.isName (c :: tail) = true) :
    Symbol.isNameStart c = true ∧ ∀ d ∈ tail, Symbol.isNameChar d = true := by
  simpa [Symbol.isName] using h

/-- An identifier is read up to where it ends. -/
theorem identifier?_append {name rest : List Char} (h : Symbol.isName name = true)
    (stop : ∀ c tail, rest = c :: tail → Symbol.isNameChar c = false) :
    identifier? (name ++ rest) = some (name, rest) := by
  cases name with
  | nil => simp [Symbol.isName] at h
  | cons c tail =>
    obtain ⟨start, chars⟩ := isName_cons h
    have none_left : rest.takeWhile Symbol.isNameChar = [] ∧
        rest.dropWhile Symbol.isNameChar = rest := by
      cases rest with
      | nil => exact ⟨rfl, rfl⟩
      | cons d rest => simp [stop d rest rfl]
    simp [identifier?, start, List.takeWhile_append_of_pos chars,
      List.dropWhile_append_of_pos chars, none_left]

theorem identifier?_eq_none {c : Char} (h : Symbol.isNameStart c = false) (tail : List Char) :
    identifier? (c :: tail) = none := by
  simp [identifier?, h]

theorem Delimited.not_nameChar {rest : List Char} (hr : Delimited rest) :
    ∀ c tail, rest = c :: tail → Symbol.isNameChar c = false := by
  intro c tail eq
  exact hr.head (by decide) eq

/-- A name without a mark is read without one. -/
theorem markedIdentifier?_name {name rest : List Char} (h : Symbol.isName name = true)
    (hr : Delimited rest) : markedIdentifier? (name ++ rest) = some (name, rest) := by
  rw [markedIdentifier?, identifier?_append h hr.not_nameChar]
  cases rest with
  | nil => rfl
  | cons c tail =>
    have no_mark : (c == '?' || c == '!' || c == '=') = false :=
      hr.head (p := fun c => c == '?' || c == '!' || c == '=') (by decide) rfl
    simp only [Option.map_some, no_mark, Bool.false_eq_true, if_false]

theorem exists_of_isMarkedName {text : List Char} (h : Symbol.isMarkedName text = true) :
    ∃ name mark, text = name ++ [mark] ∧ (mark == '?' || mark == '!' || mark == '=') = true ∧
      Symbol.isName name = true := by
  rw [Symbol.isMarkedName] at h
  split at h
  case h_2 => cases h
  case h_1 mark last =>
    simp only [Bool.and_eq_true] at h
    exact ⟨text.dropLast, mark, (List.dropLast_append_getLast? mark last).symm, h.1, h.2⟩

/-- A name with a mark is read with it. -/
theorem markedIdentifier?_marked {name : List Char} {mark : Char}
    (marked : (mark == '?' || mark == '!' || mark == '=') = true)
    (h : Symbol.isName name = true) (rest : List Char) :
    markedIdentifier? (name ++ [mark] ++ rest) = some (name ++ [mark], rest) := by
  have stop : ∀ c tail, mark :: rest = c :: tail → Symbol.isNameChar c = false := by
    intro c tail eq
    obtain ⟨rfl, -⟩ := List.cons.inj eq
    simp only [Bool.or_eq_true, beq_iff_eq] at marked
    obtain (rfl | rfl) | rfl := marked
    all_goals decide
  have found := identifier?_append h stop
  rw [List.append_assoc, List.singleton_append, markedIdentifier?, found]
  simp only [Option.map_some, marked, if_true]

/-- An operator is read as itself, although others may begin like it. -/
theorem operator?_append {op rest : List Char} (h : op ∈ Reader.operators)
    (hr : Delimited rest) : operator? (op ++ rest) = some (op, rest) := by
  -- No operator goes on with a delimiter after another one, so the rest plays no part.
  have apart : ∀ op ∈ Reader.operators, ∀ other ∈ Reader.operators,
      (delimiters.any fun c => (op ++ [c]).isPrefixOf other) = false := by decide
  have same : ∀ other ∈ Reader.operators,
      other.isPrefixOf (op ++ rest) = other.isPrefixOf op := by
    intro other mem
    rw [Bool.eq_iff_iff, List.isPrefixOf_iff_prefix, List.isPrefixOf_iff_prefix]
    constructor
    · intro front
      obtain short | long := List.prefix_or_prefix_of_prefix front (List.prefix_append op rest)
      · exact short
      · obtain ⟨extra, rfl⟩ := long
        cases extra with
        | nil => simp
        | cons c extra =>
          obtain ⟨tail, eq⟩ := front
          rw [List.append_assoc] at eq
          have inside := hr c (extra ++ tail) (List.append_cancel_left eq).symm
          have longer : (op ++ [c]).isPrefixOf (op ++ c :: extra) = true := by
            rw [List.isPrefixOf_iff_prefix]
            simp
          exact absurd longer (List.any_eq_false.1 (apart op h _ mem) c inside)
    · intro front
      exact front.trans (List.prefix_append op rest)
  have found : ∀ op ∈ Reader.operators,
      Reader.operators.find? (·.isPrefixOf op) = some op := by decide
  have first : Reader.operators.find? (·.isPrefixOf (op ++ rest)) = some op := by
    rw [← found op h]
    exact List.find?_congr same
  rw [operator?, first]
  simp

/-- A name that begins with neither `@` nor `$` is read as an identifier or as an operator. -/
theorem bareSymbol?_other {c : Char} (at_ : c ≠ '@') (dollar : c ≠ '$') (tail : List Char) :
    bareSymbol? (c :: tail) =
      match markedIdentifier? (c :: tail) with
      | some found => some found
      | none => operator? (c :: tail) := by
  unfold bareSymbol?
  split
  case h_4 => rfl
  all_goals
    rename_i start
    obtain ⟨rfl, -⟩ := List.cons.inj start
    contradiction

theorem isNameStart_sigil {c : Char} (h : Symbol.isNameStart c = true) : c ≠ '@' ∧ c ≠ '$' := by
  constructor
  all_goals
    rintro rfl
    exact absurd h (by decide)

/-- What begins with an identifier is read as far as the identifier and its mark go. -/
theorem bareSymbol?_of_identifier {name text rest : List Char} (h : Symbol.isName name = true)
    (front : name <+: text) (found : markedIdentifier? (text ++ rest) = some (text, rest)) :
    bareSymbol? (text ++ rest) = some (text, rest) := by
  obtain ⟨extra, rfl⟩ := front
  cases name with
  | nil => simp [Symbol.isName] at h
  | cons c tail =>
    obtain ⟨at_, dollar⟩ := isNameStart_sigil (isName_cons h).1
    simp only [List.cons_append] at found ⊢
    rw [bareSymbol?_other at_ dollar, found]

theorem isNameStart_of_isDigit {c : Char} (h : c.isDigit = true) :
    Symbol.isNameStart c = false := by
  simp only [Char.isDigit, Bool.and_eq_true, decide_eq_true_eq, UInt32.le_iff_toNat_le] at h
  have underscore : c ≠ '_' := by
    rintro rfl
    revert h
    decide
  simp only [Symbol.isNameStart, Char.isAlpha, Char.isUpper, Char.isLower, Bool.or_eq_false_iff,
    Bool.and_eq_false_iff, decide_eq_false_iff_not, UInt32.le_iff_toNat_le, beq_eq_false_iff_ne]
  have nine : '9'.val.toNat = 57 := rfl
  have upper : 'A'.val.toNat = 65 := rfl
  have lower : 'a'.val.toNat = 97 := rfl
  refine ⟨⟨?_, ?_⟩, underscore⟩
  · omega
  · omega

theorem globalName?_name {name rest : List Char} (h : Symbol.isName name = true)
    (hr : Delimited rest) : globalName? (name ++ rest) = some (name, rest) := by
  unfold globalName?
  rw [identifier?_append h hr.not_nameChar]

theorem globalName?_digits {name rest : List Char} (nonempty : name ≠ [])
    (digits : ∀ c ∈ name, c.isDigit = true) (hr : Delimited rest) :
    globalName? (name ++ rest) = some (name, rest) := by
  cases name with
  | nil => contradiction
  | cons c tail =>
    have first := digits c List.mem_cons_self
    have span := spanDigits_append digits hr
    rw [List.cons_append] at span ⊢
    rw [globalName?]
    rw [identifier?_eq_none (isNameStart_of_isDigit first)]
    simp only [first, if_true, span]

/-- After a dollar sign any character stands for itself. -/
theorem globalName?_single (c : Char) {rest : List Char} (hr : Delimited rest) :
    globalName? ([c] ++ rest) = some ([c], rest) := by
  by_cases start : Symbol.isNameStart c = true
  · exact globalName?_name (by simp [Symbol.isName, start]) hr
  by_cases digit : c.isDigit = true
  · exact globalName?_digits (by simp) (by simpa using digit) hr
  · unfold globalName?
    rw [List.singleton_append, identifier?_eq_none (by simpa using start)]
    simp only [digit, Bool.false_eq_true, if_false]

/-- A global variable is read after its dollar sign. -/
theorem globalName?_append {name rest : List Char}
    (h : Symbol.isName name = true ∨ Symbol.isSpecialGlobal name = true)
    (hr : Delimited rest) : globalName? (name ++ rest) = some (name, rest) := by
  obtain h | h := h
  · exact globalName?_name h hr
  · unfold Symbol.isSpecialGlobal at h
    simp only [Bool.or_eq_true, Bool.and_eq_true, Bool.not_eq_true', List.all_eq_true] at h
    obtain ⟨nonempty, digits⟩ | special := h
    · exact globalName?_digits (by simpa using nonempty) digits hr
    · split at special
      case h_1 c => exact globalName?_single c hr
      case h_2 => cases special

/-- The operators that are written bare are read bare, with one exception. -/
theorem mem_operators {text : List Char} (h : Symbol.operators.contains (String.ofList text) = true)
    (ne : text ≠ ['=']) : text ∈ Reader.operators := by
  have all : ∀ op ∈ Symbol.operators, op.toList = ['='] ∨ op.toList ∈ Reader.operators := by
    decide
  have mem : String.ofList text ∈ Symbol.operators := by simpa using h
  have known := all _ mem
  rw [String.toList_ofList] at known
  exact known.resolve_left ne

/-- An operator begins with a character that begins no other kind of symbol. -/
theorem bareSymbol?_operator {text rest : List Char} (h : text ∈ Reader.operators)
    (hr : Delimited rest) : bareSymbol? (text ++ rest) = some (text, rest) := by
  have heads : ∀ op ∈ Reader.operators, ∃ c tail, op = c :: tail ∧ c ≠ '@' ∧ c ≠ '$' ∧
      Symbol.isNameStart c = false := by
    intro op mem
    have some_head : ∀ op ∈ Reader.operators, op.head?.any (fun c => c != '@' && c != '$' &&
        !Symbol.isNameStart c) = true := by decide
    have := some_head op mem
    cases op with
    | nil => simp at this
    | cons c tail => exact ⟨c, tail, rfl, by simpa [and_assoc] using this⟩
  obtain ⟨c, tail, rfl, at_, dollar, start⟩ := heads text h
  have found := operator?_append h hr
  rw [List.cons_append] at found ⊢
  rw [bareSymbol?_other at_ dollar, markedIdentifier?, identifier?_eq_none start]
  exact found

/-- The name of an instance variable does not begin with a further `@`. -/
theorem bareSymbol?_instance {name rest : List Char} (h : Symbol.isName name = true)
    (hr : Delimited rest) : bareSymbol? ('@' :: name ++ rest) = some ('@' :: name, rest) := by
  have found := markedIdentifier?_name h hr
  cases name with
  | nil => simp [Symbol.isName] at h
  | cons c tail =>
    have other := (isNameStart_sigil (isName_cons h).1).1
    simp only [List.cons_append] at found ⊢
    unfold bareSymbol?
    split
    case h_1 start =>
      simp only [List.cons.injEq, true_and] at start
      exact absurd start.1 other
    case h_2 start =>
      obtain rfl := (List.cons.inj start).2
      rw [found, Option.map_some]
    case h_3 start => cases start
    case h_4 no_at _ => exact absurd rfl (no_at _)

/-- Every name that is written bare is read back, but for the one that no symbol has. -/
theorem bareSymbol?_append {text rest : List Char} (plain : Symbol.isPlain text = true)
    (ne : text ≠ ['=']) (hr : Delimited rest) : bareSymbol? (text ++ rest) = some (text, rest) := by
  unfold Symbol.isPlain at plain
  simp only [Bool.or_eq_true] at plain
  obtain ((name | marked) | sigil) | operator := plain
  · exact bareSymbol?_of_identifier name List.prefix_rfl (markedIdentifier?_name name hr)
  · obtain ⟨name, mark, rfl, mark_ok, name_ok⟩ := exists_of_isMarkedName marked
    exact bareSymbol?_of_identifier name_ok (List.prefix_append name [mark])
      (markedIdentifier?_marked mark_ok name_ok rest)
  · split at sigil
    case h_1 name =>
      have found := markedIdentifier?_name sigil hr
      simp only [List.cons_append, bareSymbol?, found, Option.map_some]
    case h_2 name other =>
      exact bareSymbol?_instance sigil hr
    case h_3 name =>
      have found := globalName?_append (by simpa using sigil) hr
      simp only [List.cons_append, bareSymbol?, found, Option.map_some]
    case h_4 => cases sigil
  · exact bareSymbol?_operator (mem_operators operator ne) hr

/-- A symbol is read back after its colon. -/
theorem symbol?_inspect {name : String} (ne : name ≠ "=") {rest : List Char}
    (hr : Delimited rest) :
    ∃ text, (Symbol.inspect name).toList = ':' :: text ∧
      symbol? (text ++ rest) = some (.sym name, rest) := by
  by_cases plain : Symbol.isPlain name.toList = true
  · have ne' : name.toList ≠ ['='] := by
      intro eq
      exact ne (String.toList_injective eq)
    have found := bareSymbol?_append plain ne' hr
    refine ⟨name.toList, by simp [Symbol.inspect, plain], ?_⟩
    unfold symbol?
    split
    case h_1 quoted start =>
      -- Nothing that is read bare begins with a quote.
      have none_read : bareSymbol? ('\x22' :: quoted) = none := rfl
      rw [start, none_read] at found
      cases found
    case h_2 => simp only [found, Option.map_some, String.ofList_toList]
  · have body := quotedBody_quote (ByteString.ofText name).glyphs rest
    refine ⟨'\x22' :: (ByteString.quote (ByteString.ofText name).glyphs ++ ['\x22']), ?_, ?_⟩
    · simp [Symbol.inspect, plain, ByteString.inspect]
    · simp only [List.cons_append, List.append_assoc, List.nil_append, symbol?, body,
        Option.map_some, ByteString.denoted_quote_glyphs]

theorem scalar?_str (text : String) (rest : List Char) :
    scalar? (render (.str text) ++ rest) = some (.str text, rest) := by
  have body := quotedBody_quote (ByteString.ofText text).glyphs rest
  have written : render (.str text) ++ rest =
      '\x22' :: (ByteString.quote (ByteString.ofText text).glyphs ++ '\x22' :: rest) := by
    simp [render, ByteString.inspect]
  simp only [written, scalar?, body, Option.map_some, ByteString.denoted_quote_glyphs]

/-- The token of a scalar is read back, and nothing behind it is touched. -/
theorem scalar?_render_append {v : Raw} (single : v.isScalar = true) (h : v.Storable)
    {rest : List Char} (hr : Delimited rest) : scalar? (v.render ++ rest) = some (v, rest) := by
  cases v with
  | node => cases single
  | pos => cases single
  | str text => exact scalar?_str text rest
  | sym name =>
    obtain ⟨text, written, found⟩ := symbol?_inspect h hr
    rw [render, written, List.cons_append, scalar?, found]
  | int n => exact scalar?_int n hr
  | float x => cases h
  | bool b => cases b <;> rfl
  | nil => rfl

end RubyNormalForm.Raw
