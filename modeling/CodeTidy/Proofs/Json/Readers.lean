import CodeTidy.Json.Parser
import CodeTidy.Proofs.Results

/-!
# What the readers of values take in

The three functions that read values, items and members call each other with less fuel.  When one of
them succeeds, the text behind the blanks begins with a token that decides what is read, and the parts
of a container are what the readers give for the rest (`valueRead`, `itemsRead`, `membersRead`).
-/

namespace CodeTidy.Json

variable {fuel depth : Nat} {s rest : List Char} {j : Json}

/-- A name is read when it stands at the beginning of the text. -/
theorem eq_of_readName {v : Json} : ∀ {name s : List Char},
    readName v name s = .ok (j, rest) → v = j ∧ s = name ++ rest
  | [], _, h => Prod.mk.inj (Except.ok.inj h)
  | _ :: _, [], h => by simp [readName] at h
  | n :: ns, c :: cs, h => by
    rw [readName] at h
    split at h
    · rename_i hc
      obtain ⟨hv, hcs⟩ := eq_of_readName h
      exact ⟨hv, by rw [hc, hcs]; rfl⟩
    · simp at h

/-- A text without blanks in front, the value that is read from it, and what is left. -/
inductive ValueRead (fuel depth : Nat) : List Char → Json → List Char → Prop where
  | null {rest : List Char} : ValueRead fuel depth ("null".toList ++ rest) .null rest
  | true {rest : List Char} : ValueRead fuel depth ("true".toList ++ rest) (.bool true) rest
  | false {rest : List Char} : ValueRead fuel depth ("false".toList ++ rest) (.bool false) rest
  | number (negative : Bool) {cs rest : List Char} {n : Number}
      (hn : readNumber negative cs = .ok (n, rest)) :
      ValueRead fuel depth ((if negative then ['-'] else []) ++ cs) (.number n) rest
  | string {cs v rest : List Char} (hv : readString cs = .ok (v, rest)) :
      ValueRead fuel depth ('"' :: cs) (.string (String.ofList v)) rest
  | noArray {cs rest : List Char} (hdepth : 1 < depth) (hclose : skipBlanks cs = ']' :: rest) :
      ValueRead fuel depth ('[' :: cs) (.array []) rest
  | array {cs r rest : List Char} {item : Json} {items : List Json} (hdepth : 1 < depth)
      (hitem : readValue fuel (depth - 1) (skipBlanks cs) = .ok (item, r))
      (hitems : readItems fuel (depth - 1) r = .ok (items, rest)) :
      ValueRead fuel depth ('[' :: cs) (.array (item :: items)) rest
  | noObject {cs rest : List Char} (hdepth : 1 < depth) (hclose : skipBlanks cs = '}' :: rest) :
      ValueRead fuel depth ('{' :: cs) (.object []) rest
  | object {cs cs' r r' rest : List Char} {key : String} {value : Json}
      {members : List (String × Json)} (hdepth : 1 < depth) (hquote : skipBlanks cs = '"' :: cs')
      (hkey : readKey cs' = .ok (key, r))
      (hvalue : readValue fuel (depth - 1) r = .ok (value, r'))
      (hmembers : readMembers fuel (depth - 1) r' = .ok (members, rest)) :
      ValueRead fuel depth ('{' :: cs) (.object (Members.ofList ((key, value) :: members))) rest

/-- A text without blanks in front, the items that are read from it, and what is left. -/
inductive ItemsRead (fuel depth : Nat) : List Char → List Json → List Char → Prop where
  | close {rest : List Char} : ItemsRead fuel depth (']' :: rest) [] rest
  | item {cs r rest : List Char} {item : Json} {items : List Json}
      (hitem : readValue fuel depth (skipBlanks cs) = .ok (item, r))
      (hitems : readItems fuel depth r = .ok (items, rest)) :
      ItemsRead fuel depth (',' :: cs) (item :: items) rest

/-- A text without blanks in front, the members that are read from it, and what is left. -/
inductive MembersRead (fuel depth : Nat) : List Char → List (String × Json) → List Char → Prop where
  | close {rest : List Char} : MembersRead fuel depth ('}' :: rest) [] rest
  | member {cs cs' r r' rest : List Char} {key : String} {value : Json}
      {members : List (String × Json)} (hquote : skipBlanks cs = '"' :: cs')
      (hkey : readKey cs' = .ok (key, r)) (hvalue : readValue fuel depth r = .ok (value, r'))
      (hmembers : readMembers fuel depth r' = .ok (members, rest)) :
      MembersRead fuel depth (',' :: cs) ((key, value) :: members) rest

/-- **What a reader of values has taken in.** -/
theorem valueRead (h : readValue (fuel + 1) depth s = .ok (j, rest)) :
    ValueRead fuel depth (skipBlanks s) j rest := by
  unfold readValue at h
  split at h
  · simp at h
  · rename_i cs hs
    obtain ⟨rfl, rfl⟩ := eq_of_readName h
    exact hs ▸ .null
  · rename_i cs hs
    obtain ⟨rfl, rfl⟩ := eq_of_readName h
    exact hs ▸ .true
  · rename_i cs hs
    obtain ⟨rfl, rfl⟩ := eq_of_readName h
    exact hs ▸ .false
  · rename_i cs hs
    obtain ⟨⟨n, r⟩, hn, h⟩ := map_eq_ok.1 h
    obtain ⟨rfl, rfl⟩ := Prod.mk.inj h
    exact hs ▸ .number true hn
  · rename_i cs hs
    obtain ⟨⟨v, r⟩, hv, h⟩ := map_eq_ok.1 h
    obtain ⟨rfl, rfl⟩ := Prod.mk.inj h
    exact hs ▸ .string hv
  · rename_i cs hs
    rw [hs]
    split at h
    · simp at h
    rename_i hdepth
    split at h
    · simp at h
    · rename_i cs' hclose
      obtain ⟨rfl, rfl⟩ := Prod.mk.inj (Except.ok.inj h)
      exact .noArray (Nat.lt_of_not_le hdepth) hclose
    · obtain ⟨⟨item, r⟩, hitem, h⟩ := bind_eq_ok.1 h
      obtain ⟨⟨items, r'⟩, hitems, h⟩ := bind_eq_ok.1 h
      obtain ⟨rfl, rfl⟩ := Prod.mk.inj (Except.ok.inj h)
      exact .array (Nat.lt_of_not_le hdepth) hitem hitems
  · rename_i cs hs
    rw [hs]
    split at h
    · simp at h
    rename_i hdepth
    split at h
    · simp at h
    · rename_i cs' hclose
      obtain ⟨rfl, rfl⟩ := Prod.mk.inj (Except.ok.inj h)
      exact .noObject (Nat.lt_of_not_le hdepth) hclose
    · rename_i cs' hquote
      obtain ⟨⟨key, r⟩, hkey, h⟩ := bind_eq_ok.1 h
      obtain ⟨⟨value, r'⟩, hvalue, h⟩ := bind_eq_ok.1 h
      obtain ⟨⟨members, r''⟩, hmembers, h⟩ := bind_eq_ok.1 h
      obtain ⟨rfl, rfl⟩ := Prod.mk.inj (Except.ok.inj h)
      exact .object (Nat.lt_of_not_le hdepth) hquote hkey hvalue hmembers
    · simp at h
  · rename_i c cs _ _ _ _ _ _ _ hs
    split at h
    · obtain ⟨⟨n, r⟩, hn, h⟩ := map_eq_ok.1 h
      obtain ⟨rfl, rfl⟩ := Prod.mk.inj h
      exact hs ▸ .number false hn
    · simp at h

theorem itemsRead {js : List Json} (h : readItems (fuel + 1) depth s = .ok (js, rest)) :
    ItemsRead fuel depth (skipBlanks s) js rest := by
  unfold readItems at h
  split at h
  · simp at h
  · rename_i cs hs
    obtain ⟨rfl, rfl⟩ := Prod.mk.inj (Except.ok.inj h)
    exact hs ▸ .close
  · rename_i cs hs
    rw [hs]
    split at h
    · simp at h
    · simp at h
    · obtain ⟨⟨item, r⟩, hitem, h⟩ := bind_eq_ok.1 h
      obtain ⟨⟨items, r'⟩, hitems, h⟩ := bind_eq_ok.1 h
      obtain ⟨rfl, rfl⟩ := Prod.mk.inj (Except.ok.inj h)
      exact .item hitem hitems
  · simp at h

theorem membersRead {ms : List (String × Json)}
    (h : readMembers (fuel + 1) depth s = .ok (ms, rest)) :
    MembersRead fuel depth (skipBlanks s) ms rest := by
  unfold readMembers at h
  split at h
  · simp at h
  · rename_i cs hs
    obtain ⟨rfl, rfl⟩ := Prod.mk.inj (Except.ok.inj h)
    exact hs ▸ .close
  · rename_i cs hs
    rw [hs]
    split at h
    · simp at h
    · simp at h
    · rename_i cs' hquote
      obtain ⟨⟨key, r⟩, hkey, h⟩ := bind_eq_ok.1 h
      obtain ⟨⟨value, r'⟩, hvalue, h⟩ := bind_eq_ok.1 h
      obtain ⟨⟨members, r''⟩, hmembers, h⟩ := bind_eq_ok.1 h
      obtain ⟨rfl, rfl⟩ := Prod.mk.inj (Except.ok.inj h)
      exact .member hquote hkey hvalue hmembers
    · simp at h
  · simp at h

end CodeTidy.Json
