/-!
# Bytes and UTF-8

The content of a file is a list of bytes.  `Utf8.decode?` reads it as text when it is valid
UTF-8, and `Utf8.decodeLossy` reads any bytes, with U+FFFD for each maximal run of bytes that
starts a character but cannot complete one.  `decode?_encode` and `encode_of_decode?` say that
text and its valid encodings determine each other.
-/

namespace CodeTidy

abbrev Bytes := List UInt8

namespace Utf8

/-- The bytes of a text. -/
def encode (s : String) : Bytes :=
  s.toByteArray.data.toList

/-- The text that the bytes encode, when they are valid. -/
def decode? (b : Bytes) : Option String :=
  String.fromUTF8? ⟨b.toArray⟩

theorem encode_of_decode? {b : Bytes} {s : String} (h : decode? b = some s) : encode s = b := by
  unfold decode? String.fromUTF8? at h
  split at h
  · obtain rfl := Option.some.inj h
    simp [encode, String.fromUTF8]
  · simp at h

theorem decode?_encode (s : String) : decode? (encode s) = some s := by
  have hb : (⟨(encode s).toArray⟩ : ByteArray) = s.toByteArray := by simp [encode]
  unfold decode? String.fromUTF8?
  rw [hb]
  split
  · rfl
  · rename_i h
    exact absurd (by simpa using s.isValidUTF8) h

/-! ### Replacing invalid bytes -/

/-- A character under construction: the continuation bytes still owed, the range that the next
one must lie in, and the bits read so far. -/
structure Partial where
  owed : Nat
  low : Nat
  high : Nat
  bits : Nat
  deriving DecidableEq, Repr

/-- What a byte between two characters stands for. -/
inductive Lead where
  | ascii (c : Char)
  | opens (p : Partial)
  | invalid
  deriving DecidableEq, Repr

/-- Classifies the first byte of a character. -/
def Lead.ofByte (b : UInt8) : Lead :=
  let n := b.toNat
  if n < 0x80 then .ascii (Char.ofNat n)
  else if n < 0xC2 then .invalid
  else if n < 0xE0 then .opens ⟨1, 0x80, 0xBF, n - 0xC0⟩
  else if n = 0xE0 then .opens ⟨2, 0xA0, 0xBF, 0⟩
  else if n = 0xED then .opens ⟨2, 0x80, 0x9F, 0xD⟩
  else if n < 0xF0 then .opens ⟨2, 0x80, 0xBF, n - 0xE0⟩
  else if n = 0xF0 then .opens ⟨3, 0x90, 0xBF, 0⟩
  else if n < 0xF4 then .opens ⟨3, 0x80, 0xBF, n - 0xF0⟩
  else if n = 0xF4 then .opens ⟨3, 0x80, 0x8F, 4⟩
  else .invalid

/-- The character that stands for bytes that are no character. -/
def replacement : Char := '\ufffd'

/-- Reads one byte between two characters; `done` is the text so far, reversed. -/
def start (done : List Char) (b : UInt8) : List Char × Option Partial :=
  match Lead.ofByte b with
  | .ascii c => (c :: done, none)
  | .opens p => (done, some p)
  | .invalid => (replacement :: done, none)

/-- Reads the bytes from one of them on; `done` is the text so far, reversed. -/
def scan (done : List Char) : Option Partial → Bytes → List Char
  | none, [] => done
  | some _, [] => replacement :: done
  | none, b :: bs =>
    let (done, next) := start done b
    scan done next bs
  | some p, b :: bs =>
    if p.low ≤ b.toNat ∧ b.toNat ≤ p.high then
      let bits := p.bits * 64 + (b.toNat - 0x80)
      if p.owed ≤ 1 then scan (Char.ofNat bits :: done) none bs
      else scan done (some ⟨p.owed - 1, 0x80, 0xBF, bits⟩) bs
    else
      let (done, next) := start (replacement :: done) b
      scan done next bs

/-- The text of any bytes. -/
def decodeLossy (b : Bytes) : String :=
  match decode? b with
  | some s => s
  | none => String.ofList (scan [] none b).reverse

@[simp] theorem decodeLossy_encode (s : String) : decodeLossy (encode s) = s := by
  simp [decodeLossy, decode?_encode]

end Utf8

end CodeTidy
