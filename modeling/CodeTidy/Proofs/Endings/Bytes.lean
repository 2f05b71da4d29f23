import CodeTidy.Proofs.Endings.Uniform
import CodeTidy.Proofs.Text.Lossy

/-!
# Contents that differ in line endings only

Two contents are alike when they agree once every CRLF break is an LF break (`Alike`).  This is said
of bytes, which need not be text: bytes that are alike to a text are a text
(`exists_encode_of_toLfBytes`).  An output that has been given the line endings of a text is alike
to the output except where a text with LF breaks meets two carriage returns before a line feed
(`toLf_reapply_iff`).
-/

namespace CodeTidy

namespace Utf8

open String (utf8EncodeChar)

/-! ### Bytes below 128 -/

/-- A byte below 128 in the encoding of a character is that character, and nothing else is there. -/
theorem eq_of_mem_utf8EncodeChar {c : Char} {b : UInt8} (h : b ∈ utf8EncodeChar c)
    (hb : b.toNat < 0x80) : c = Char.ofNat b.toNat ∧ utf8EncodeChar c = [b] := by
  suffices hc : c = Char.ofNat b.toNat from ⟨hc, hc ▸ utf8EncodeChar_one hb⟩
  have hc : c = Char.ofNat c.val.toNat := (Char.ofNat_toNat c).symm
  rw [hc]
  congr 1
  unfold utf8EncodeChar at h
  dsimp only at h
  split_ifs at h with h₁ h₂ h₃ <;>
    simp only [List.mem_cons, List.not_mem_nil, or_false] at h
  · rw [h, UInt8.toNat_ofNat']
    omega
  · rcases h with rfl | rfl <;> rw [UInt8.toNat_ofNat'] at hb <;> omega
  · rcases h with rfl | rfl | rfl <;> rw [UInt8.toNat_ofNat'] at hb <;> omega
  · rcases h with rfl | rfl | rfl | rfl <;> rw [UInt8.toNat_ofNat'] at hb <;> omega

/-- Only the first byte of a character is below 128. -/
theorem le_of_mem_tail {c : Char} {first b : UInt8} {rest : Bytes}
    (h : utf8EncodeChar c = first :: rest) (hb : b ∈ rest) : 0x80 ≤ b.toNat := by
  by_contra hlow
  have hmem : b ∈ utf8EncodeChar c := h ▸ List.mem_cons_of_mem _ hb
  have hone := (eq_of_mem_utf8EncodeChar hmem (by omega)).2
  rw [h, List.cons.injEq] at hone
  rw [hone.2] at hb
  exact List.not_mem_nil hb

end Utf8

namespace LineEnding

open String (utf8EncodeChar)

/-! ### Bytes with LF breaks -/

/-- Turns every CRLF break of a content into LF. -/
def toLfBytes : Bytes → Bytes
  | [] => []
  | b :: bs => if b = 13 ∧ bs.head? = some 10 then toLfBytes bs else b :: toLfBytes bs

/-- Two contents that differ in their line endings only. -/
def Alike (a b : Bytes) : Prop :=
  toLfBytes a = toLfBytes b

theorem toLf_cons (c : Char) (cs : List Char) :
    toLf (c :: cs) = if c = '\r' ∧ cs.head? = some '\n' then toLf cs else c :: toLf cs := by
  split
  · rename_i h
    obtain ⟨rfl, h⟩ := h
    obtain ⟨ds, rfl⟩ := List.head?_eq_some_iff.1 h
    rw [toLf, toLf]
    exact fun _ hcr => absurd hcr (by decide)
  · rename_i h
    rw [toLf]
    exact fun ds hc hcs => h ⟨hc, by rw [hcs]; rfl⟩

/-- Bytes that are no carriage returns stay. -/
theorem toLfBytes_append {read : Bytes} (h : 13 ∉ read) (bs : Bytes) :
    toLfBytes (read ++ bs) = read ++ toLfBytes bs := by
  induction read with
  | nil => rfl
  | cons b read ih =>
    obtain ⟨hb, hread⟩ := List.ne_and_not_mem_of_not_mem_cons h
    rw [List.cons_append, toLfBytes, if_neg fun h => hb h.1.symm, ih hread, List.cons_append]

theorem head?_flatMap_utf8EncodeChar (cs : List Char) :
    (cs.flatMap utf8EncodeChar).head? = some 10 ↔ cs.head? = some '\n' := by
  cases cs with
  | nil => simp
  | cons c cs =>
    obtain ⟨first, rest, hc⟩ := List.exists_cons_of_ne_nil (String.utf8EncodeChar_ne_nil (c := c))
    rw [List.flatMap_cons, hc, List.cons_append, List.head?_cons, List.head?_cons,
      Option.some.injEq, Option.some.injEq]
    constructor
    · rintro rfl
      exact (Utf8.eq_of_mem_utf8EncodeChar (hc ▸ List.mem_cons_self) (by decide)).1
    · rintro rfl
      have hlf : utf8EncodeChar '\n' = [10] := rfl
      exact (List.cons.inj (hc.symm.trans hlf)).1

theorem toLfBytes_flatMap (cs : List Char) :
    toLfBytes (cs.flatMap utf8EncodeChar) = (toLf cs).flatMap utf8EncodeChar := by
  induction cs with
  | nil => rfl
  | cons c cs ih =>
    rw [List.flatMap_cons, toLf_cons]
    by_cases hc : c = '\r'
    · obtain rfl := hc
      have hcr : utf8EncodeChar '\r' = [13] := rfl
      simp only [hcr, List.singleton_append, toLfBytes, head?_flatMap_utf8EncodeChar, ih, true_and]
      split
      · rfl
      · rw [List.flatMap_cons, hcr, List.singleton_append]
    · rw [if_neg fun h => hc h.1, List.flatMap_cons, toLfBytes_append, ih]
      intro hmem
      exact hc (Utf8.eq_of_mem_utf8EncodeChar hmem (by decide)).1

theorem toLfBytes_encode (text : String) :
    toLfBytes (Utf8.encode text) = Utf8.encode (String.ofList (toLf text.toList)) := by
  rw [Utf8.encode_ofList, Utf8.encode_eq_flatMap, toLfBytes_flatMap]

/-- A byte that is no line feed and begins what `toLfBytes` leaves begins the content. -/
theorem exists_of_toLfBytes_eq_append {read : Bytes} (h : 10 ∉ read) : ∀ {bs rest : Bytes},
    toLfBytes bs = read ++ rest → ∃ bs', bs = read ++ bs' ∧ toLfBytes bs' = rest := by
  induction read with
  | nil => exact fun {bs rest} e => ⟨bs, rfl, e⟩
  | cons b read ih =>
    intro bs rest e
    obtain ⟨hb, hread⟩ := List.ne_and_not_mem_of_not_mem_cons h
    cases bs with
    | nil => simp [toLfBytes] at e
    | cons x xs =>
      rw [toLfBytes] at e
      split at e
      · rename_i hx
        obtain ⟨ys, rfl⟩ := List.head?_eq_some_iff.1 hx.2
        rw [toLfBytes, if_neg (by simp), List.cons_append, List.cons.injEq] at e
        exact absurd e.1 hb
      · rw [List.cons_append, List.cons.injEq] at e
        obtain ⟨rfl, e⟩ := e
        obtain ⟨bs', rfl, hrest⟩ := ih hread e
        exact ⟨bs', rfl, hrest⟩

/-- **Bytes are a text if they are one with LF breaks.**  The recursion is on the bytes; a character
of several bytes is taken off at once. -/
theorem exists_flatMap_of_toLfBytes : ∀ {bs : Bytes} {cs : List Char},
    toLfBytes bs = cs.flatMap utf8EncodeChar → ∃ ds : List Char, bs = ds.flatMap utf8EncodeChar
  | [], _, _ => ⟨[], rfl⟩
  | b :: bs, cs, h => by
    rw [toLfBytes] at h
    split at h
    · rename_i hb
      obtain ⟨ds, hds⟩ := exists_flatMap_of_toLfBytes h
      exact ⟨'\r' :: ds, by rw [List.flatMap_cons, ← hds, hb.1]; rfl⟩
    · cases cs with
      | nil => simp at h
      | cons c cs =>
        obtain ⟨first, rest, hc⟩ := List.exists_cons_of_ne_nil (String.utf8EncodeChar_ne_nil (c := c))
        rw [List.flatMap_cons, hc, List.cons_append, List.cons.injEq] at h
        obtain ⟨rfl, h⟩ := h
        have hlf : 10 ∉ rest := fun hmem => absurd (Utf8.le_of_mem_tail hc hmem) (by decide)
        obtain ⟨bs', hbs, hrest⟩ := exists_of_toLfBytes_eq_append hlf h
        have hlength : bs'.length ≤ bs.length := by
          rw [hbs, List.length_append]
          exact Nat.le_add_left _ _
        obtain ⟨ds, hds⟩ := exists_flatMap_of_toLfBytes hrest
        exact ⟨c :: ds, by rw [List.flatMap_cons, hc, List.cons_append, hbs, hds]⟩
termination_by bs => bs.length

theorem exists_encode_of_toLfBytes {bs : Bytes} {text : String}
    (h : toLfBytes bs = Utf8.encode text) : ∃ text', bs = Utf8.encode text' := by
  rw [Utf8.encode_eq_flatMap] at h
  obtain ⟨ds, hds⟩ := exists_flatMap_of_toLfBytes h
  exact ⟨String.ofList ds, by rw [Utf8.encode_ofList, hds]⟩

/-! ### Giving an output the line endings of a text -/

theorem length_toLf_le (text : List Char) : (toLf text).length ≤ text.length := by
  induction text with
  | nil => exact le_rfl
  | cons c cs ih =>
    rw [toLf_cons]
    split
    · exact ih.trans (Nat.le_succ _)
    · exact Nat.succ_le_succ ih

theorem toLf_eq_self_iff {text : List Char} :
    toLf text = text ↔ ¬ ['\r', '\n'] <:+: text := by
  induction text with
  | nil => simp [toLf]
  | cons c cs ih =>
    have hhead : ['\r', '\n'] <+: c :: cs ↔ c = '\r' ∧ cs.head? = some '\n' := by
      rw [List.cons_prefix_cons, List.head?_eq_some_iff, eq_comm]
      exact and_congr_right fun _ => exists_congr fun ds => eq_comm
    rw [toLf_cons, List.infix_cons_iff, hhead, not_or]
    split
    · rename_i hcrlf
      refine iff_of_false (fun h => ?_) fun h => h.1 hcrlf
      have hlength := length_toLf_le cs
      rw [h, List.length_cons] at hlength
      omega
    · rename_i hcrlf
      rw [List.cons.injEq, and_iff_right rfl, ih, and_iff_right hcrlf]

theorem head?_expandLf_ne (text : List Char) : (expandLf text).head? ≠ some '\n' := by
  cases text with
  | nil => simp [expandLf]
  | cons c cs =>
    unfold expandLf
    rw [List.flatMap_cons]
    split
    · simp
    · simpa

theorem toLf_expandLf (text : List Char) : toLf (expandLf text) = text := by
  induction text with
  | nil => rfl
  | cons c cs ih =>
    have hhead := head?_expandLf_ne cs
    unfold expandLf at ih hhead ⊢
    rw [List.flatMap_cons]
    split
    · rename_i hc
      rw [hc, List.cons_append, List.singleton_append, toLf, ih]
    · rw [List.singleton_append, toLf_cons, if_neg fun h => hhead h.2, ih]

/-- **An output that has been given the line endings of a text is alike to the output**, except
exactly when the text has LF breaks and a line feed of the output has two carriage returns before
it. -/
theorem toLf_reapply_iff (source output : List Char) :
    toLf (reapply source output) = toLf output ↔
      (detect source = .lf → ¬ ['\r', '\r', '\n'] <:+: output) := by
  unfold reapply
  dsimp only
  cases hs : detect source with
  | lf =>
    rw [if_neg (by decide)]
    split
    · rename_i ho
      exact iff_of_true rfl fun _ => not_infix_of_detect_eq_lf ho
    · rw [normalize, toLf_eq_self_iff, infix_toLf_iff]
      simp
  | crlf =>
    rw [if_neg (by decide)]
    refine iff_of_true ?_ (by simp)
    split
    · rfl
    · exact toLf_expandLf _
  | mixed => simp

/-- **What is stored of any output is alike to the output exactly when the output is text**, and not
one in which the line endings of the source let a break become another. -/
theorem alike_reapply_iff (source : List Char) (output : Bytes) :
    Alike (Utf8.encode (String.ofList (reapply source (Utf8.decodeLossy output).toList))) output ↔
      ∃ text, output = Utf8.encode text ∧
        (detect source = .lf → ¬ ['\r', '\r', '\n'] <:+: text.toList) := by
  rw [Alike, toLfBytes_encode, String.toList_ofList]
  constructor
  · intro h
    obtain ⟨text, rfl⟩ := exists_encode_of_toLfBytes h.symm
    refine ⟨text, rfl, (toLf_reapply_iff source text.toList).1 ?_⟩
    rw [Utf8.decodeLossy_encode, toLfBytes_encode] at h
    exact String.ofList_injective (encode_injective h)
  · rintro ⟨text, rfl, h⟩
    rw [Utf8.decodeLossy_encode, toLfBytes_encode, (toLf_reapply_iff source text.toList).2 h]

end LineEnding

end CodeTidy
