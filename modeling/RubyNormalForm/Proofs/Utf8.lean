import Mathlib.Tactic.SplitIfs
import RubyNormalForm.Text.Utf8

/-!
# Decoding what was encoded

The scan of `Utf8.pieces` recovers every sequence of characters from its bytes. The heart of
the matter is one step, `pieces_utf8EncodeChar_append`: at the bytes of a character the scan
reports that character and stops exactly behind it, whatever follows. Both readings of bytes
as text are views of the scan, so they inherit the result.

The bounds of second bytes are what makes the step go through for characters near a gap in
the code space; they are checked by evaluation for each lead byte.

The other way round, the bytes at which the scan reports a character are those of the
character (`cons_eq_of_next`), so a strict reading loses nothing either.
-/

namespace RubyNormalForm.Utf8

theorem toNat_byte {n : Nat} (h : n < 256) : (UInt8.ofNat n).toNat = n := by
  rw [UInt8.toNat_ofNat', Nat.mod_eq_of_lt h]

theorem isContinuation_byte {n : Nat} (h : n < 64) :
    isContinuation (UInt8.ofNat (n + 0x80)) = true := by
  have value := toNat_byte (n := n + 0x80) (by omega)
  simp only [isContinuation, Bool.and_eq_true, decide_eq_true_eq, UInt8.le_iff_toNat_le, value]
  constructor
  · simp
  · simp
    omega

theorem extend_byte {value n : Nat} (h : n < 64) :
    extend value (UInt8.ofNat (n + 0x80)) = value * 64 + n := by
  have byte := toNat_byte (n := n + 0x80) (by omega)
  unfold extend
  rw [byte, Nat.add_sub_cancel]

theorem not_ascii_byte {n : Nat} (low : 0x80 ≤ n) (high : n < 256) : ¬ UInt8.ofNat n < 0x80 := by
  rw [UInt8.lt_iff_toNat_lt, toNat_byte high]
  simpa using low

theorem lead?_two (n : Fin 32) (h : 2 ≤ n.val) :
    lead? (UInt8.ofNat (n + 0xC0)) = some ⟨1, 0x80, 0xBF, n⟩ := by
  revert n
  decide

theorem lead?_three (n : Fin 16) : lead? (UInt8.ofNat (n + 0xE0)) =
    some ⟨2, if n.val = 0 then 0xA0 else 0x80, if n.val = 13 then 0x9F else 0xBF, n⟩ := by
  revert n
  decide

theorem lead?_four (n : Fin 5) : lead? (UInt8.ofNat (n + 0xF0)) =
    some ⟨3, if n.val = 0 then 0x90 else 0x80, if n.val = 4 then 0x8F else 0xBF, n⟩ := by
  revert n
  decide

/-- A second byte within the bounds of a lead byte, stated on numbers. -/
theorem Lead.admits_byte {l : Lead} {n : Nat} (bound : n < 64) (low : l.low.toNat ≤ n + 0x80)
    (high : n + 0x80 ≤ l.high.toNat) : l.admits (UInt8.ofNat (n + 0x80)) = true := by
  have value := toNat_byte (n := n + 0x80) (by omega)
  simp only [admits, Bool.and_eq_true, decide_eq_true_eq, UInt8.le_iff_toNat_le, value]
  exact ⟨low, high⟩

/-- The code of a character lies in the code space and not in its gap. -/
theorem toNat_bounds (c : Char) :
    c.toNat < 0x110000 ∧ (c.toNat < 0xD800 ∨ 0xE000 ≤ c.toNat) := by
  obtain h | h := c.valid
  · change c.toNat < 0xD800 at h
    omega
  · change 0xDFFF < c.toNat ∧ c.toNat < 0x110000 at h
    omega

theorem utf8EncodeChar_one {c : Char} (h : c.toNat < 0x80) :
    String.utf8EncodeChar c = [UInt8.ofNat c.toNat] := by
  have small : c.val.toNat ≤ 0x7f := by
    change c.toNat ≤ 0x7f
    omega
  simp only [String.utf8EncodeChar, if_pos small]
  rfl

theorem utf8EncodeChar_two {c : Char} (low : 0x80 ≤ c.toNat) (high : c.toNat < 0x800) :
    String.utf8EncodeChar c =
      [UInt8.ofNat (c.toNat / 64 + 0xC0), UInt8.ofNat (c.toNat % 64 + 0x80)] := by
  have h1 : ¬ c.val.toNat ≤ 0x7f := by
    change ¬ c.toNat ≤ 0x7f
    omega
  have h2 : c.val.toNat ≤ 0x7ff := by
    change c.toNat ≤ 0x7ff
    omega
  simp only [String.utf8EncodeChar, if_neg h1, if_pos h2]
  change [UInt8.ofNat (c.toNat / 64 % 0x20 + 0xC0), UInt8.ofNat (c.toNat % 64 + 0x80)] = _
  rw [Nat.mod_eq_of_lt (by omega : c.toNat / 64 < 0x20)]

theorem utf8EncodeChar_three {c : Char} (low : 0x800 ≤ c.toNat) (high : c.toNat < 0x10000) :
    String.utf8EncodeChar c =
      [UInt8.ofNat (c.toNat / 4096 + 0xE0), UInt8.ofNat (c.toNat / 64 % 64 + 0x80),
        UInt8.ofNat (c.toNat % 64 + 0x80)] := by
  have h1 : ¬ c.val.toNat ≤ 0x7f := by
    change ¬ c.toNat ≤ 0x7f
    omega
  have h2 : ¬ c.val.toNat ≤ 0x7ff := by
    change ¬ c.toNat ≤ 0x7ff
    omega
  have h3 : c.val.toNat ≤ 0xffff := by
    change c.toNat ≤ 0xffff
    omega
  simp only [String.utf8EncodeChar, if_neg h1, if_neg h2, if_pos h3]
  change [UInt8.ofNat (c.toNat / 4096 % 0x10 + 0xE0), UInt8.ofNat (c.toNat / 64 % 64 + 0x80),
    UInt8.ofNat (c.toNat % 64 + 0x80)] = _
  rw [Nat.mod_eq_of_lt (by omega : c.toNat / 4096 < 0x10)]

theorem utf8EncodeChar_four {c : Char} (low : 0x10000 ≤ c.toNat) :
    String.utf8EncodeChar c =
      [UInt8.ofNat (c.toNat / 262144 + 0xF0), UInt8.ofNat (c.toNat / 4096 % 64 + 0x80),
        UInt8.ofNat (c.toNat / 64 % 64 + 0x80), UInt8.ofNat (c.toNat % 64 + 0x80)] := by
  have bound := (toNat_bounds c).1
  have h1 : ¬ c.val.toNat ≤ 0x7f := by
    change ¬ c.toNat ≤ 0x7f
    omega
  have h2 : ¬ c.val.toNat ≤ 0x7ff := by
    change ¬ c.toNat ≤ 0x7ff
    omega
  have h3 : ¬ c.val.toNat ≤ 0xffff := by
    change ¬ c.toNat ≤ 0xffff
    omega
  simp only [String.utf8EncodeChar, if_neg h1, if_neg h2, if_neg h3]
  change [UInt8.ofNat (c.toNat / 262144 % 0x08 + 0xF0), UInt8.ofNat (c.toNat / 4096 % 64 + 0x80),
    UInt8.ofNat (c.toNat / 64 % 64 + 0x80), UInt8.ofNat (c.toNat % 64 + 0x80)] = _
  rw [Nat.mod_eq_of_lt (by omega : c.toNat / 262144 < 0x08)]

/-- A byte of the ASCII range occurs only in the character it stands for. -/
theorem eq_of_mem_utf8EncodeChar {c : Char} {b : UInt8} (mem : b ∈ String.utf8EncodeChar c)
    (ascii : b < 0x80) : c = Char.ofNat b.toNat := by
  have bound := (toNat_bounds c).1
  by_cases h1 : c.toNat < 0x80
  · rw [utf8EncodeChar_one h1, List.mem_singleton] at mem
    rw [mem, toNat_byte (by omega), Char.ofNat_toNat]
  · -- All bytes of a longer character are past ASCII.
    have wide : ∀ n, 0x80 ≤ n → n < 256 → b ≠ UInt8.ofNat n := by
      rintro n low high rfl
      exact not_ascii_byte low high ascii
    exfalso
    by_cases h2 : c.toNat < 0x800
    · rw [utf8EncodeChar_two (by omega) h2] at mem
      simp only [List.mem_cons, List.not_mem_nil, or_false] at mem
      obtain mem | mem := mem
      all_goals exact wide _ (by omega) (by omega) mem
    by_cases h3 : c.toNat < 0x10000
    · rw [utf8EncodeChar_three (by omega) h3] at mem
      simp only [List.mem_cons, List.not_mem_nil, or_false] at mem
      obtain mem | mem | mem := mem
      all_goals exact wide _ (by omega) (by omega) mem
    · rw [utf8EncodeChar_four (by omega)] at mem
      simp only [List.mem_cons, List.not_mem_nil, or_false] at mem
      obtain mem | mem | mem | mem := mem
      all_goals exact wide _ (by omega) (by omega) mem

/-- The scan reads a character of one byte. -/
theorem next_one {v : Nat} (h : v < 0x80) (rest : List UInt8) :
    next (UInt8.ofNat v) rest = (some (Char.ofNat v), 0) := by
  have value := toNat_byte (n := v) (by omega)
  have ascii : UInt8.ofNat v < 0x80 := by
    rw [UInt8.lt_iff_toNat_lt, value]
    exact h
  simp only [next, if_pos ascii, value]

theorem next_two {a b : Nat} (ha : 2 ≤ a) (ha' : a < 32) (hb : b < 64) (rest : List UInt8) :
    next (UInt8.ofNat (a + 0xC0)) (UInt8.ofNat (b + 0x80) :: rest) =
      (some (Char.ofNat (a * 64 + b)), 1) := by
  have wide := not_ascii_byte (n := a + 0xC0) (by omega) (by omega)
  have lead := lead?_two ⟨a, ha'⟩ ha
  have admits : (Lead.mk 1 0x80 0xBF a).admits (UInt8.ofNat (b + 0x80)) = true :=
    Lead.admits_byte hb (by simp) (by simp; omega)
  simp only [next, if_neg wide, lead, admits, Bool.not_true, Bool.false_eq_true, if_false, if_true,
    extend_byte hb]

theorem next_three {a b c : Nat} (ha : a < 16) (hb : b < 64) (hc : c < 64)
    (low : a = 0 → 32 ≤ b) (high : a = 13 → b < 32) (rest : List UInt8) :
    next (UInt8.ofNat (a + 0xE0)) (UInt8.ofNat (b + 0x80) :: UInt8.ofNat (c + 0x80) :: rest) =
      (some (Char.ofNat ((a * 64 + b) * 64 + c)), 2) := by
  have wide := not_ascii_byte (n := a + 0xE0) (by omega) (by omega)
  have lead := lead?_three ⟨a, ha⟩
  have admits : (Lead.mk 2 (if a = 0 then 0xA0 else 0x80) (if a = 13 then 0x9F else 0xBF) a).admits
      (UInt8.ofNat (b + 0x80)) = true := by
    apply Lead.admits_byte hb
    · change (if a = 0 then (0xA0 : UInt8) else 0x80).toNat ≤ b + 0x80
      split
      · simp
        omega
      · simp
    · change b + 0x80 ≤ (if a = 13 then (0x9F : UInt8) else 0xBF).toNat
      split
      · simp
        omega
      · simp
        omega
  simp only [next, if_neg wide, lead, admits, Bool.not_true, Bool.false_eq_true, if_false, if_true,
    extend_byte hb, extend_byte hc, isContinuation_byte hc, Nat.reduceEqDiff]

theorem next_four {a b c d : Nat} (ha : a < 5) (hb : b < 64) (hc : c < 64) (hd : d < 64)
    (low : a = 0 → 16 ≤ b) (high : a = 4 → b < 16) (rest : List UInt8) :
    next (UInt8.ofNat (a + 0xF0))
        (UInt8.ofNat (b + 0x80) :: UInt8.ofNat (c + 0x80) :: UInt8.ofNat (d + 0x80) :: rest) =
      (some (Char.ofNat (((a * 64 + b) * 64 + c) * 64 + d)), 3) := by
  have wide := not_ascii_byte (n := a + 0xF0) (by omega) (by omega)
  have lead := lead?_four ⟨a, ha⟩
  have admits : (Lead.mk 3 (if a = 0 then 0x90 else 0x80) (if a = 4 then 0x8F else 0xBF) a).admits
      (UInt8.ofNat (b + 0x80)) = true := by
    apply Lead.admits_byte hb
    · change (if a = 0 then (0x90 : UInt8) else 0x80).toNat ≤ b + 0x80
      split
      · simp
        omega
      · simp
    · change b + 0x80 ≤ (if a = 4 then (0x8F : UInt8) else 0xBF).toNat
      split
      · simp
        omega
      · simp
        omega
  simp only [next, if_neg wide, lead, admits, Bool.not_true, Bool.false_eq_true, if_false,
    extend_byte hb, extend_byte hc, extend_byte hd, isContinuation_byte hc, isContinuation_byte hd,
    Nat.reduceEqDiff]

/-- At the bytes of a character the scan finds that character and nothing more. -/
theorem pieces_utf8EncodeChar_append (c : Char) (rest : List UInt8) :
    pieces (String.utf8EncodeChar c ++ rest) = some c :: pieces rest := by
  obtain ⟨bound, gap⟩ := toNat_bounds c
  by_cases h1 : c.toNat < 0x80
  · rw [utf8EncodeChar_one h1, List.singleton_append, pieces, next_one h1, Char.ofNat_toNat]
    rfl
  by_cases h2 : c.toNat < 0x800
  · rw [utf8EncodeChar_two (by omega) h2, List.cons_append, List.singleton_append, pieces,
      next_two (by omega) (by omega) (by omega),
      show c.toNat / 64 * 64 + c.toNat % 64 = c.toNat by omega, Char.ofNat_toNat]
    rfl
  by_cases h3 : c.toNat < 0x10000
  · simp only [utf8EncodeChar_three (by omega) h3, List.cons_append, List.nil_append]
    rw [pieces, next_three (by omega) (by omega) (by omega) (by omega) (by omega),
      show (c.toNat / 4096 * 64 + c.toNat / 64 % 64) * 64 + c.toNat % 64 = c.toNat by omega,
      Char.ofNat_toNat]
    rfl
  · simp only [utf8EncodeChar_four (by omega : 0x10000 ≤ c.toNat), List.cons_append,
      List.nil_append]
    rw [pieces, next_four (by omega) (by omega) (by omega) (by omega) (by omega) (by omega),
      show ((c.toNat / 262144 * 64 + c.toNat / 4096 % 64) * 64 + c.toNat / 64 % 64) * 64 +
        c.toNat % 64 = c.toNat by omega, Char.ofNat_toNat]
    rfl

theorem encode_cons (c : Char) (cs : List Char) :
    encode (c :: cs) = String.utf8EncodeChar c ++ encode cs :=
  List.flatMap_cons

theorem encode_append (cs ds : List Char) : encode (cs ++ ds) = encode cs ++ encode ds :=
  List.flatMap_append

theorem pieces_encode_append (cs : List Char) (rest : List UInt8) :
    pieces (encode cs ++ rest) = cs.map some ++ pieces rest := by
  induction cs with
  | nil => rfl
  | cons c cs ih =>
    rw [encode_cons, List.append_assoc, pieces_utf8EncodeChar_append, ih, List.map_cons,
      List.cons_append]

/-- The scan recovers the characters that were encoded. -/
theorem pieces_encode (cs : List Char) : pieces (encode cs) = cs.map some := by
  rw [← List.append_nil (encode cs), pieces_encode_append, pieces, List.append_nil]

theorem decode?_encode (cs : List Char) : decode? (encode cs) = some cs := by
  rw [decode?, pieces_encode]
  induction cs with
  | nil => rfl
  | cons c cs ih => simp_all

theorem decodeLossy_encode (cs : List Char) : decodeLossy (encode cs) = cs := by
  rw [decodeLossy, pieces_encode, List.map_map]
  exact List.map_id cs

/-- A text survives the way through its bytes. -/
@[simp] theorem toText_ofText (text : String) : toText (ofText text) = text := by
  rw [toText, ofText, decodeLossy_encode, String.ofList_toList]

/-! ### Encoding what was decoded -/

/-- The code of the character with a given number. -/
theorem toNat_char {n : Nat} (valid : n < 0xD800 ∨ 0xE000 ≤ n ∧ n < 0x110000) :
    (Char.ofNat n).toNat = n := by
  have isValid : n.isValidChar := by
    unfold Nat.isValidChar
    omega
  rw [Char.ofNat, dif_pos isValid]
  rfl

theorem utf8EncodeChar_extend_two {a : Nat} {b c : UInt8} (lead : b.toNat = a + 0xC0)
    (ha : 2 ≤ a ∧ a < 32) (hc : 0x80 ≤ c.toNat ∧ c.toNat ≤ 0xBF) :
    String.utf8EncodeChar (Char.ofNat (extend a c)) = [b, c] := by
  unfold extend
  generalize isValue : a * 64 + (c.toNat - 0x80) = v
  have code := toNat_char (n := v) (by omega)
  have first : v / 64 + 0xC0 = b.toNat := by omega
  have second : v % 64 + 0x80 = c.toNat := by omega
  rw [utf8EncodeChar_two (by omega) (by omega), code, first, second, UInt8.ofNat_toNat,
    UInt8.ofNat_toNat]

theorem utf8EncodeChar_extend_three {a : Nat} {b c d : UInt8} (lead : b.toNat = a + 0xE0)
    (ha : a < 16) (hc : 0x80 ≤ c.toNat ∧ c.toNat ≤ 0xBF) (low : a = 0 → 0xA0 ≤ c.toNat)
    (high : a = 13 → c.toNat ≤ 0x9F) (hd : 0x80 ≤ d.toNat ∧ d.toNat ≤ 0xBF) :
    String.utf8EncodeChar (Char.ofNat (extend (extend a c) d)) = [b, c, d] := by
  unfold extend
  generalize isValue : (a * 64 + (c.toNat - 0x80)) * 64 + (d.toNat - 0x80) = v
  have code := toNat_char (n := v) (by omega)
  have first : v / 4096 + 0xE0 = b.toNat := by omega
  have second : v / 64 % 64 + 0x80 = c.toNat := by omega
  have third : v % 64 + 0x80 = d.toNat := by omega
  rw [utf8EncodeChar_three (by omega) (by omega), code, first, second, third, UInt8.ofNat_toNat,
    UInt8.ofNat_toNat, UInt8.ofNat_toNat]

theorem utf8EncodeChar_extend_four {a : Nat} {b c d e : UInt8} (lead : b.toNat = a + 0xF0)
    (ha : a < 5) (hc : 0x80 ≤ c.toNat ∧ c.toNat ≤ 0xBF) (low : a = 0 → 0x90 ≤ c.toNat)
    (high : a = 4 → c.toNat ≤ 0x8F) (hd : 0x80 ≤ d.toNat ∧ d.toNat ≤ 0xBF)
    (he : 0x80 ≤ e.toNat ∧ e.toNat ≤ 0xBF) :
    String.utf8EncodeChar (Char.ofNat (extend (extend (extend a c) d) e)) = [b, c, d, e] := by
  unfold extend
  generalize isValue :
    ((a * 64 + (c.toNat - 0x80)) * 64 + (d.toNat - 0x80)) * 64 + (e.toNat - 0x80) = v
  have code := toNat_char (n := v) (by omega)
  have first : v / 262144 + 0xF0 = b.toNat := by omega
  have second : v / 4096 % 64 + 0x80 = c.toNat := by omega
  have third : v / 64 % 64 + 0x80 = d.toNat := by omega
  have fourth : v % 64 + 0x80 = e.toNat := by omega
  rw [utf8EncodeChar_four (by omega), code, first, second, third, fourth, UInt8.ofNat_toNat,
    UInt8.ofNat_toNat, UInt8.ofNat_toNat, UInt8.ofNat_toNat]

/-- The bounds that a lead byte sets, stated on numbers. -/
theorem bounds_of_lead? {b : UInt8} {l : Lead} (found : lead? b = some l) :
    (0x80 ≤ l.low.toNat ∧ l.high.toNat ≤ 0xBF) ∧
      (l.more = 1 ∧ 2 ≤ l.payload ∧ l.payload < 32 ∧ b.toNat = l.payload + 0xC0 ∨
       l.more = 2 ∧ l.payload < 16 ∧ b.toNat = l.payload + 0xE0 ∧
         (l.payload = 0 → 0xA0 ≤ l.low.toNat) ∧ (l.payload = 13 → l.high.toNat ≤ 0x9F) ∨
       l.more = 3 ∧ l.payload < 5 ∧ b.toNat = l.payload + 0xF0 ∧
         (l.payload = 0 → 0x90 ≤ l.low.toNat) ∧ (l.payload = 4 → l.high.toNat ≤ 0x8F)) := by
  simp only [lead?, UInt8.lt_iff_toNat_lt, ← UInt8.toNat_inj, UInt8.reduceToNat] at found
  split_ifs at found <;> cases found <;> simp <;> omega

theorem bounds_of_admits {l : Lead} {b : UInt8} (admits : l.admits b = true) :
    l.low.toNat ≤ b.toNat ∧ b.toNat ≤ l.high.toNat := by
  simpa only [Lead.admits, Bool.and_eq_true, decide_eq_true_eq, UInt8.le_iff_toNat_le] using admits

theorem bounds_of_isContinuation {b : UInt8} (continues : isContinuation b = true) :
    0x80 ≤ b.toNat ∧ b.toNat ≤ 0xBF := by
  simpa only [isContinuation, Bool.and_eq_true, decide_eq_true_eq, UInt8.le_iff_toNat_le,
    UInt8.reduceToNat] using continues

/-- Where the scan finds a character, the bytes of that character stand. The cases are the
four widths of a character. -/
theorem cons_eq_of_next {b : UInt8} {rest : List UInt8} {c : Char} {n : Nat}
    (found : next b rest = (some c, n)) : b :: rest = String.utf8EncodeChar c ++ rest.drop n := by
  unfold next at found
  split at found
  · rename_i ascii
    simp only [Prod.mk.injEq, Option.some.injEq] at found
    have small : b.toNat < 0x80 := UInt8.lt_iff_toNat_lt.1 ascii
    have code := toNat_char (n := b.toNat) (by omega)
    rw [← found.1, ← found.2, utf8EncodeChar_one (by omega), code, UInt8.ofNat_toNat]
    rfl
  split at found
  · cases found
  · cases found
  rename_i l second rest isLead
  obtain ⟨bounds, widths⟩ := bounds_of_lead? isLead
  split at found
  · cases found
  rename_i admits
  have admitted := bounds_of_admits (by simpa using admits)
  split at found
  · simp only [Prod.mk.injEq, Option.some.injEq] at found
    rw [← found.1, ← found.2, utf8EncodeChar_extend_two (b := b) (by omega) (by omega) (by omega)]
    rfl
  split at found
  · cases found
  rename_i third rest
  split at found
  · cases found
  rename_i continues
  have continued := bounds_of_isContinuation (b := third) (by simpa using continues)
  split at found
  · simp only [Prod.mk.injEq, Option.some.injEq] at found
    rw [← found.1, ← found.2, utf8EncodeChar_extend_three (b := b) (by omega) (by omega) (by omega)
      (by omega) (by omega) continued]
    rfl
  split at found
  · cases found
  rename_i fourth rest
  split at found
  · cases found
  rename_i continues'
  have continued' := bounds_of_isContinuation (b := fourth) (by simpa using continues')
  simp only [Prod.mk.injEq, Option.some.injEq] at found
  rw [← found.1, ← found.2, utf8EncodeChar_extend_four (b := b) (by omega) (by omega) (by omega)
    (by omega) (by omega) continued continued']
  rfl

/-- A well-formed byte sequence is that of the characters it is read as. -/
theorem encode_of_decode? {bytes : List UInt8} {chars : List Char}
    (found : decode? bytes = some chars) : encode chars = bytes := by
  unfold decode? at found
  fun_induction pieces bytes generalizing chars with
  | case1 =>
    cases found
    rfl
  | case2 b rest ih =>
    simp only [List.mapM_cons, id_eq, Option.pure_def, Option.bind_eq_bind, Option.bind_eq_some_iff,
      Option.some.injEq] at found
    obtain ⟨c, isChar, others, isOthers, rfl⟩ := found
    rw [encode_cons, ih isOthers]
    exact (cons_eq_of_next (n := (next b rest).2) (Prod.ext isChar rfl)).symm

theorem exists_encode_of_isValid {bytes : List UInt8} (valid : isValid bytes = true) :
    ∃ chars, encode chars = bytes := by
  unfold isValid at valid
  fun_induction pieces bytes with
  | case1 => exact ⟨[], rfl⟩
  | case2 b rest ih =>
    rw [List.all_cons, Bool.and_eq_true, Option.isSome_iff_exists] at valid
    obtain ⟨⟨c, isChar⟩, others⟩ := valid
    obtain ⟨chars, isRest⟩ := ih others
    refine ⟨c :: chars, ?_⟩
    rw [encode_cons, isRest]
    exact (cons_eq_of_next (n := (next b rest).2) (Prod.ext isChar rfl)).symm

/-- After well-formed text, the bytes that follow decide. -/
theorem isValid_append {front : List UInt8} (valid : isValid front = true) (rest : List UInt8) :
    isValid (front ++ rest) = isValid rest := by
  obtain ⟨chars, rfl⟩ := exists_encode_of_isValid valid
  have known : (chars.map some).all Option.isSome = true := by simp
  rw [isValid, pieces_encode_append, List.all_append, known, Bool.true_and, isValid]

theorem isValid_encode (chars : List Char) : isValid (encode chars) = true := by
  rw [isValid, pieces_encode]
  simp

theorem isValid_utf8EncodeChar (c : Char) : isValid (String.utf8EncodeChar c) = true := by
  have single := isValid_encode [c]
  rwa [encode, List.flatMap_singleton] at single

/-- Well-formed text is put together from well-formed parts. -/
theorem isValid_flatMap {α : Type} {f : α → List UInt8} {parts : List α}
    (valid : ∀ part ∈ parts, isValid (f part) = true) : isValid (parts.flatMap f) = true := by
  induction parts with
  | nil => exact isValid_encode []
  | cons part parts ih =>
    rw [List.forall_mem_cons] at valid
    rw [List.flatMap_cons, isValid_append valid.1]
    exact ih valid.2

/-- A byte of the ASCII range is a character by itself. -/
theorem isValid_cons {b : UInt8} (ascii : b < 0x80) (rest : List UInt8) :
    isValid (b :: rest) = isValid rest := by
  have alone : next b rest = (some (Char.ofNat b.toNat), 0) := by
    simp only [next, if_pos ascii]
  rw [isValid, pieces, alone]
  rfl

theorem isValid_singleton {b : UInt8} (ascii : b < 0x80) : isValid [b] = true := by
  rw [isValid_cons ascii]
  exact isValid_encode []

/-- A character that has a byte of the ASCII range has no other byte. -/
theorem length_utf8EncodeChar_of_mem {c : Char} {b : UInt8} (mem : b ∈ String.utf8EncodeChar c)
    (ascii : b < 0x80) : (String.utf8EncodeChar c).length = 1 := by
  have small : b.toNat < 0x80 := UInt8.lt_iff_toNat_lt.1 ascii
  have code : c.toNat = b.toNat := by
    rw [eq_of_mem_utf8EncodeChar mem ascii]
    exact toNat_char (by omega)
  rw [utf8EncodeChar_one (by omega), List.length_singleton]

/-- A byte of the ASCII range begins a character wherever it stands in well-formed text, so what
follows it is well formed. -/
theorem isValid_of_append_cons {front rest : List UInt8} {b : UInt8} (ascii : b < 0x80)
    (valid : isValid (front ++ b :: rest) = true) : isValid rest = true := by
  obtain ⟨chars, isText⟩ := exists_encode_of_isValid valid
  clear valid
  induction chars generalizing front with
  | nil =>
    have empty : front ++ b :: rest = [] := isText.symm
    simp at empty
  | cons c chars ih =>
    rw [encode_cons] at isText
    obtain ⟨more, isFront, others⟩ | ⟨more, isChar, others⟩ := List.append_eq_append_iff.1 isText
    · exact ih others
    · cases more with
      | nil =>
        have begins : encode chars = [] ++ b :: rest := others.symm
        exact ih begins
      | cons first more =>
        -- the byte is one of this character, which therefore has no other
        obtain ⟨rfl, rfl⟩ := List.cons_eq_cons.1 others
        have single := length_utf8EncodeChar_of_mem (c := c) (b := b) (by simp [isChar]) ascii
        have nothing : more = [] := by
          rw [isChar, List.length_append, List.length_cons] at single
          exact List.length_eq_zero_iff.1 (by omega)
        rw [nothing]
        exact isValid_encode chars

end RubyNormalForm.Utf8
