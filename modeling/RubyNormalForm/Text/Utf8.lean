/-!
# UTF-8

Bytes are read by a single scan, `pieces`, which cuts them into characters and broken
stretches. A broken stretch is the longest run of bytes that could still have begun a
character; it is reported once. The strict reading `decode?` refuses broken stretches and
the lenient reading `decodeLossy` shows each of them as U+FFFD, so the two readings agree
on every well-formed text by construction.
-/

namespace RubyNormalForm.Utf8

/-- What a lead byte promises: how many bytes follow it, the bounds of the first of them
(these rule out overlong forms, surrogates and values past U+10FFFF), and its own payload. -/
structure Lead where
  more : Nat
  low : UInt8
  high : UInt8
  payload : Nat
deriving DecidableEq

/-- The promise of a byte that is not ASCII; `none` if no character begins with it. -/
def lead? (b : UInt8) : Option Lead :=
  if b < 0xC2 then none
  else if b < 0xE0 then some ⟨1, 0x80, 0xBF, b.toNat - 0xC0⟩
  else if b = 0xE0 then some ⟨2, 0xA0, 0xBF, 0⟩
  else if b = 0xED then some ⟨2, 0x80, 0x9F, 13⟩
  else if b < 0xF0 then some ⟨2, 0x80, 0xBF, b.toNat - 0xE0⟩
  else if b = 0xF0 then some ⟨3, 0x90, 0xBF, 0⟩
  else if b < 0xF4 then some ⟨3, 0x80, 0xBF, b.toNat - 0xF0⟩
  else if b = 0xF4 then some ⟨3, 0x80, 0x8F, 4⟩
  else none

/-- Whether a byte can stand second after the given lead. -/
def Lead.admits (l : Lead) (b : UInt8) : Bool :=
  l.low ≤ b && b ≤ l.high

/-- Whether a byte continues a character past its second byte. -/
def isContinuation (b : UInt8) : Bool :=
  0x80 ≤ b && b ≤ 0xBF

/-- The value so far, extended by the six payload bits of a following byte. -/
def extend (value : Nat) (b : UInt8) : Nat :=
  value * 64 + (b.toNat - 0x80)

/-- The piece that begins with byte `b` before `rest`, and how many bytes of `rest` belong
to it. A broken stretch ends before the first byte that no character could have there. -/
def next (b : UInt8) (rest : List UInt8) : Option Char × Nat :=
  if b < 0x80 then (some (Char.ofNat b.toNat), 0)
  else
    match lead? b, rest with
    | none, _ => (none, 0)
    | some _, [] => (none, 0)
    | some l, c :: rest =>
      if !l.admits c then (none, 0)
      else if l.more = 1 then (some (Char.ofNat (extend l.payload c)), 1)
      else
        match rest with
        | [] => (none, 1)
        | d :: rest =>
          if !isContinuation d then (none, 1)
          else if l.more = 2 then (some (Char.ofNat (extend (extend l.payload c) d)), 2)
          else
            match rest with
            | [] => (none, 2)
            | e :: _ =>
              if !isContinuation e then (none, 2)
              else (some (Char.ofNat (extend (extend (extend l.payload c) d) e)), 3)

/-- The characters of a byte sequence in order, with `none` for each broken stretch. -/
def pieces : List UInt8 → List (Option Char)
  | [] => []
  | b :: rest => (next b rest).1 :: pieces (rest.drop (next b rest).2)
termination_by bytes => bytes.length
decreasing_by simp only [List.length_drop, List.length_cons]; omega

/-- The characters of a well-formed byte sequence. -/
def decode? (bytes : List UInt8) : Option (List Char) :=
  (pieces bytes).mapM id

/-- The characters of any byte sequence, with U+FFFD for each broken stretch. -/
def decodeLossy (bytes : List UInt8) : List Char :=
  (pieces bytes).map (·.getD (Char.ofNat 0xFFFD))

/-- Whether a byte sequence is well formed. -/
def isValid (bytes : List UInt8) : Bool :=
  (pieces bytes).all Option.isSome

/-- The bytes of a sequence of characters. -/
def encode (chars : List Char) : List UInt8 :=
  chars.flatMap String.utf8EncodeChar

/-- The bytes of a text. -/
def ofText (text : String) : List UInt8 :=
  encode text.toList

/-- The text that a byte sequence shows, broken stretches included. -/
def toText (bytes : List UInt8) : String :=
  String.ofList (decodeLossy bytes)

end RubyNormalForm.Utf8
