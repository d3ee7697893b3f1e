import Mathlib.Data.String.Basic
import RubyNormalForm.Proofs.Utf8

/-!
# The order of encoded texts

Texts are ordered by their characters, files on disk by the bytes of their names. The two orders
are one: the bytes of a lower character come before those of a higher one whatever follows, since
a longer character begins with a higher byte and characters of one length differ first in their
most significant part.
-/

namespace RubyNormalForm.Utf8

theorem byte_cons_lt {m n : Nat} (hm : m < 256) (hn : n < 256) {xs ys : List UInt8} :
    UInt8.ofNat m :: xs < UInt8.ofNat n :: ys ↔ m < n ∨ m = n ∧ xs < ys := by
  rw [List.cons_lt_cons_iff, UInt8.lt_iff_toNat_lt, ← UInt8.toNat_inj, toNat_byte hm,
    toNat_byte hn]

/-- The four lengths of a character, with its bytes. -/
theorem utf8EncodeChar_cases (c : Char) :
    (c.toNat < 0x80 ∧ String.utf8EncodeChar c = [UInt8.ofNat c.toNat]) ∨
    (0x80 ≤ c.toNat ∧ c.toNat < 0x800 ∧ String.utf8EncodeChar c =
      [UInt8.ofNat (c.toNat / 64 + 0xC0), UInt8.ofNat (c.toNat % 64 + 0x80)]) ∨
    (0x800 ≤ c.toNat ∧ c.toNat < 0x10000 ∧ String.utf8EncodeChar c =
      [UInt8.ofNat (c.toNat / 4096 + 0xE0), UInt8.ofNat (c.toNat / 64 % 64 + 0x80),
        UInt8.ofNat (c.toNat % 64 + 0x80)]) ∨
    (0x10000 ≤ c.toNat ∧ c.toNat < 0x110000 ∧ String.utf8EncodeChar c =
      [UInt8.ofNat (c.toNat / 262144 + 0xF0), UInt8.ofNat (c.toNat / 4096 % 64 + 0x80),
        UInt8.ofNat (c.toNat / 64 % 64 + 0x80), UInt8.ofNat (c.toNat % 64 + 0x80)]) := by
  by_cases one : c.toNat < 0x80
  · exact .inl ⟨one, utf8EncodeChar_one one⟩
  by_cases two : c.toNat < 0x800
  · exact .inr (.inl ⟨by omega, two, utf8EncodeChar_two (by omega) two⟩)
  by_cases three : c.toNat < 0x10000
  · exact .inr (.inr (.inl ⟨by omega, three, utf8EncodeChar_three (by omega) three⟩))
  · exact .inr (.inr (.inr ⟨by omega, (toNat_bounds c).1, utf8EncodeChar_four (by omega)⟩))

/-- The bytes of a lower character come before those of a higher one, whatever follows. -/
theorem utf8EncodeChar_append_lt {c d : Char} (lower : c < d) (xs ys : List UInt8) :
    String.utf8EncodeChar c ++ xs < String.utf8EncodeChar d ++ ys := by
  have codes : c.toNat < d.toNat := lower
  -- All pairs of lengths: the first byte tells a longer character from a shorter one, and
  -- between characters of one length the most significant part that differs decides.
  obtain ⟨_, cBytes⟩ | ⟨_, _, cBytes⟩ | ⟨_, _, cBytes⟩ | ⟨_, _, cBytes⟩ := utf8EncodeChar_cases c <;>
  obtain ⟨_, dBytes⟩ | ⟨_, _, dBytes⟩ | ⟨_, _, dBytes⟩ | ⟨_, _, dBytes⟩ := utf8EncodeChar_cases d
  all_goals
    rw [cBytes, dBytes]
    simp (disch := omega) only [List.cons_append, List.nil_append, byte_cons_lt]
    omega

/-- Encoding keeps the order. -/
theorem encode_lt_encode {cs ds : List Char} (before : cs < ds) : encode cs < encode ds := by
  induction before with
  | nil =>
    rename_i d ds
    obtain ⟨b, bytes, isEncoded⟩ :=
      List.exists_cons_of_ne_nil (String.utf8EncodeChar_ne_nil (c := d))
    rw [encode_cons, isEncoded]
    exact List.nil_lt_cons b _
  | cons _ ih =>
    rw [encode_cons, encode_cons]
    exact List.append_left_lt ih
  | rel lower =>
    rw [encode_cons, encode_cons]
    exact utf8EncodeChar_append_lt lower _ _

theorem ofText_lt_ofText {s t : String} (before : s < t) : ofText s < ofText t :=
  encode_lt_encode (String.lt_iff_toList_lt.1 before)

end RubyNormalForm.Utf8
