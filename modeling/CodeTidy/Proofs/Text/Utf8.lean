import CodeTidy.Text.Utf8

/-!
# The bytes of texts

Texts that have the same bytes are the same, and the bytes of texts that are put together are put
together.
-/

namespace CodeTidy

theorem encode_injective {a b : String} (h : Utf8.encode a = Utf8.encode b) : a = b := by
  have hd := congrArg Utf8.decode? h
  rw [Utf8.decode?_encode, Utf8.decode?_encode] at hd
  exact Option.some.inj hd

namespace Utf8

theorem encode_append (a b : String) : encode (a ++ b) = encode a ++ encode b := by
  simp [encode]

theorem encode_ne_nil {s : String} (h : s ≠ "") : encode s ≠ [] :=
  fun hnil => h (encode_injective (hnil.trans (by decide)))

end Utf8

end CodeTidy
