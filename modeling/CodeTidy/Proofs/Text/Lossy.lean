import CodeTidy.Proofs.Text.Utf8
import Mathlib.Tactic.SplitIfs

/-!
# Bytes that are no text

Reading any bytes as text leaves U+FFFD wherever they are no UTF-8: bytes that are read without a
replacement character are the encoding of a text (`Utf8.isSome_decode?_of_notMem`).  The reader
works byte by byte; `Partial.Opened` says of a character under construction that whatever completes
it is encoded by the bytes read so far and those that complete it.
-/

namespace CodeTidy.Utf8

open String (utf8EncodeChar)

/-! ### Encoding characters -/

theorem encode_eq_flatMap (s : String) : encode s = s.toList.flatMap utf8EncodeChar := by
  rw [encode, ← String.utf8Encode_toList, List.utf8Encode]
  simp

theorem encode_ofList (t : List Char) :
    encode (String.ofList t) = t.flatMap utf8EncodeChar := by
  rw [encode_eq_flatMap, String.toList_ofList]

theorem toNat_val_ofNat {v : Nat} (h : v.isValidChar) : (Char.ofNat v).val.toNat = v := by
  rw [Char.ofNat, dif_pos h]
  rfl

/-! The encodings of code points, by the number of bytes. -/

section

variable {v : Nat} {a b c d : UInt8}

theorem utf8EncodeChar_one (ha : a.toNat < 0x80) : utf8EncodeChar (Char.ofNat a.toNat) = [a] := by
  have hvalid : a.toNat.isValidChar := .inl (by omega)
  have hle : a.toNat ≤ 127 := by omega
  simp only [utf8EncodeChar, toNat_val_ofNat hvalid, if_pos hle, UInt8.ofNat_toNat]

theorem utf8EncodeChar_two (hv : 0x80 ≤ v) (hv' : v < 0x800) (ha : a.toNat = v / 64 + 192)
    (hb : b.toNat = v % 64 + 128) : utf8EncodeChar (Char.ofNat v) = [a, b] := by
  have hvalid : v.isValidChar := .inl (by omega)
  have h₁ : ¬ v ≤ 127 := by omega
  have h₂ : v ≤ 2047 := by omega
  have ha' : v / 64 % 32 + 192 = a.toNat := by omega
  simp only [utf8EncodeChar, toNat_val_ofNat hvalid, if_neg h₁, if_pos h₂, ha', ← hb,
    UInt8.ofNat_toNat]

theorem utf8EncodeChar_three (hv : 0x800 ≤ v) (hv' : v < 0x10000)
    (hs : v < 0xD800 ∨ 0xDFFF < v) (ha : a.toNat = v / 4096 + 224)
    (hb : b.toNat = v / 64 % 64 + 128) (hc : c.toNat = v % 64 + 128) :
    utf8EncodeChar (Char.ofNat v) = [a, b, c] := by
  have hvalid : v.isValidChar := hs.imp id fun h => ⟨h, by omega⟩
  have h₁ : ¬ v ≤ 127 := by omega
  have h₂ : ¬ v ≤ 2047 := by omega
  have h₃ : v ≤ 65535 := by omega
  have ha' : v / 4096 % 16 + 224 = a.toNat := by omega
  simp only [utf8EncodeChar, toNat_val_ofNat hvalid, if_neg h₁, if_neg h₂, if_pos h₃, ha', ← hb,
    ← hc, UInt8.ofNat_toNat]

theorem utf8EncodeChar_four (hv : 0x10000 ≤ v) (hv' : v < 0x110000)
    (ha : a.toNat = v / 262144 + 240) (hb : b.toNat = v / 4096 % 64 + 128)
    (hc : c.toNat = v / 64 % 64 + 128) (hd : d.toNat = v % 64 + 128) :
    utf8EncodeChar (Char.ofNat v) = [a, b, c, d] := by
  have hvalid : v.isValidChar := .inr ⟨by omega, hv'⟩
  have h₁ : ¬ v ≤ 127 := by omega
  have h₂ : ¬ v ≤ 2047 := by omega
  have h₃ : ¬ v ≤ 65535 := by omega
  have ha' : v / 262144 % 8 + 240 = a.toNat := by omega
  simp only [utf8EncodeChar, toNat_val_ofNat hvalid, if_neg h₁, if_neg h₂, if_neg h₃, ha', ← hb,
    ← hc, ← hd, UInt8.ofNat_toNat]

end

/-! ### Characters under construction -/

/-- Whatever bytes complete the character, it is encoded by the bytes that were read and these. -/
inductive Partial.Opened : Partial → Bytes → Prop where
  | last {low high bits : Nat} {read : Bytes}
      (h : ∀ b : UInt8, low ≤ b.toNat → b.toNat ≤ high →
        utf8EncodeChar (Char.ofNat (bits * 64 + (b.toNat - 0x80))) = read ++ [b]) :
      Opened ⟨1, low, high, bits⟩ read
  | more {owed low high bits : Nat} {read : Bytes}
      (h : ∀ b : UInt8, low ≤ b.toNat → b.toNat ≤ high →
        Opened ⟨owed + 1, 0x80, 0xBF, bits * 64 + (b.toNat - 0x80)⟩ (read ++ [b])) :
      Opened ⟨owed + 2, low, high, bits⟩ read

namespace Partial

variable {a : UInt8} {low high bits : Nat}

theorem opened_two (ha : a.toNat = bits + 0xC0) (hmin : 2 ≤ bits) (hmax : bits < 0x20) :
    Opened ⟨1, 0x80, 0xBF, bits⟩ [a] :=
  .last fun b hb hb' => utf8EncodeChar_two (by omega) (by omega) (by omega) (by omega)

theorem opened_three (ha : a.toNat = bits + 0xE0) (hbits : bits < 16) (hlow : 0x80 ≤ low)
    (hhigh : high ≤ 0xBF) (hmin : bits = 0 → 0xA0 ≤ low) (hsurrogate : bits = 0xD → high ≤ 0x9F) :
    Opened ⟨2, low, high, bits⟩ [a] :=
  .more fun b hb hb' => .last fun c hc hc' =>
    utf8EncodeChar_three (by omega) (by omega) (by omega) (by omega) (by omega) (by omega)

theorem opened_four (ha : a.toNat = bits + 0xF0) (hbits : bits < 5) (hlow : 0x80 ≤ low)
    (hhigh : high ≤ 0xBF) (hmin : bits = 0 → 0x90 ≤ low) (hmax : bits = 4 → high ≤ 0x8F) :
    Opened ⟨3, low, high, bits⟩ [a] :=
  .more fun b hb hb' => .more fun c hc hc' => .last fun d hd hd' =>
    utf8EncodeChar_four (by omega) (by omega) (by omega) (by omega) (by omega) (by omega)

/-- A byte that opens a character opens it for all bytes that it admits. -/
theorem opened_of_ofByte {p : Partial} (h : Lead.ofByte a = .opens p) : p.Opened [a] := by
  have ha := a.toNat_lt
  unfold Lead.ofByte at h
  dsimp only at h
  split_ifs at h <;> cases h
  · exact opened_two (by omega) (by omega) (by omega)
  · exact opened_three (by omega) (by omega) (by omega) (by omega) (by omega) (by omega)
  · exact opened_three (by omega) (by omega) (by omega) (by omega) (by omega) (by omega)
  · exact opened_three (by omega) (by omega) (by omega) (by omega) (by omega) (by omega)
  · exact opened_four (by omega) (by omega) (by omega) (by omega) (by omega) (by omega)
  · exact opened_four (by omega) (by omega) (by omega) (by omega) (by omega) (by omega)
  · exact opened_four (by omega) (by omega) (by omega) (by omega) (by omega) (by omega)

end Partial

theorem utf8EncodeChar_of_ofByte {a : UInt8} {c : Char} (h : Lead.ofByte a = .ascii c) :
    utf8EncodeChar c = [a] := by
  unfold Lead.ofByte at h
  dsimp only at h
  split_ifs at h with ha
  obtain rfl := Lead.ascii.inj h
  exact utf8EncodeChar_one ha

/-! ### Reading -/

theorem mem_start {x : Char} {done : List Char} (b : UInt8) (h : x ∈ done) :
    x ∈ (start done b).1 := by
  unfold start
  split
  · exact List.mem_cons_of_mem _ h
  · exact h
  · exact List.mem_cons_of_mem _ h

theorem mem_scan {x : Char} : ∀ (bs : Bytes) {done : List Char} (p? : Option Partial),
    x ∈ done → x ∈ scan done p? bs
  | [], done, none, h => h
  | [], done, some p, h => List.mem_cons_of_mem _ h
  | b :: bs, done, none, h => mem_scan bs (start done b).2 (mem_start b h)
  | b :: bs, done, some p, h => by
    rw [scan]
    split
    · dsimp only
      split
      · exact mem_scan bs none (List.mem_cons_of_mem _ h)
      · exact mem_scan bs (some _) h
    · exact mem_scan bs (start (replacement :: done) b).2 (mem_start b (List.mem_cons_of_mem _ h))

/-- The bytes of the character under construction. -/
def Pending : Option Partial → Bytes → Prop
  | none, read => read = []
  | some p, read => p.Opened read

/-- **Bytes that are read without a replacement character are the encoding of a text.** -/
theorem exists_flatMap_of_scan : ∀ (bs : Bytes) {done : List Char} {p? : Option Partial}
    {read : Bytes}, Pending p? read → replacement ∉ scan done p? bs →
    ∃ t : List Char, read ++ bs = t.flatMap utf8EncodeChar
  | [], done, none, read, hp, h => ⟨[], by rw [hp]; rfl⟩
  | [], done, some p, read, hp, h => absurd List.mem_cons_self h
  | b :: bs, done, none, read, hp, h => by
    obtain rfl : read = [] := hp
    rw [scan, start] at h
    cases hb : Lead.ofByte b with
    | ascii c =>
      rw [hb] at h
      obtain ⟨t, ht⟩ := exists_flatMap_of_scan bs (show Pending none [] from rfl) h
      exact ⟨c :: t, by rw [List.flatMap_cons, utf8EncodeChar_of_ofByte hb, ← ht]; rfl⟩
    | opens p =>
      rw [hb] at h
      exact exists_flatMap_of_scan bs (show Pending (some p) [b] from Partial.opened_of_ofByte hb) h
    | invalid =>
      rw [hb] at h
      exact absurd (mem_scan bs none List.mem_cons_self) h
  | b :: bs, done, some p, read, hp, h => by
    rw [scan] at h
    split at h
    · rename_i hrange
      cases hp with
      | last hlast =>
        have hc := hlast b hrange.1 hrange.2
        obtain ⟨t, ht⟩ := exists_flatMap_of_scan bs (show Pending none [] from rfl) h
        exact ⟨_ :: t, by rw [List.flatMap_cons, hc, ← ht]; simp⟩
      | more hmore =>
        obtain ⟨t, ht⟩ := exists_flatMap_of_scan bs
          (show Pending (some _) _ from hmore b hrange.1 hrange.2) h
        exact ⟨t, by rw [← ht]; simp⟩
    · exact absurd (mem_scan bs (start (replacement :: done) b).2
        (mem_start b List.mem_cons_self)) h

theorem isSome_decode?_of_notMem {b : Bytes} (h : replacement ∉ (decodeLossy b).toList) :
    (decode? b).isSome := by
  cases hb : decode? b with
  | some s => rfl
  | none =>
    rw [decodeLossy, hb, String.toList_ofList, List.mem_reverse] at h
    obtain ⟨t, ht⟩ := exists_flatMap_of_scan b (show Pending none [] from rfl) h
    rw [← encode_ofList, List.nil_append] at ht
    rw [ht, decode?_encode] at hb
    exact absurd hb (Option.some_ne_none _)

end CodeTidy.Utf8
