import CodeTidy.Proofs.Json.Decimals
import CodeTidy.Proofs.Json.Members
import CodeTidy.Proofs.Json.RoundTrip

/-!
# Values as they are written

A `Spelling` is a JSON value as a text writes it: its numbers are literals, and its objects have all
members that were written, in their order.  `Document t text` is the grammar of JSON: the text
writes `t`, with blanks around it.  A `Route` leads to a part of a value or of a spelling; where a
key was written twice, it leads to the last member.  A printed value is a document
(`document_pretty`), with the numbers of the value at their places (`at?_spelling`).
-/

namespace CodeTidy

namespace Json

/-! ### Routes -/

/-- A step from a value to one of its parts. -/
inductive Step where
  | key (name : String)
  | index (place : Nat)
  deriving DecidableEq, Repr

/-- The steps that lead from a value to one of its parts. -/
abbrev Route := List Step

/-- The part of a value to which a step leads. -/
def part? : Step → Json → Option Json
  | .index i, .array items => items[i]?
  | .key k, .object members => Members.get? members k
  | _, _ => none

/-- The part of a value to which a route leads. -/
def at? : Route → Json → Option Json
  | [], j => some j
  | step :: p, j => (part? step j).bind (at? p)

/-- A value as it is written. -/
inductive Spelling where
  | null
  | bool (value : Bool)
  | number (literal : Literal)
  | string (value : String)
  | array (items : List Spelling)
  | object (members : List (String × Spelling))

def Spelling.part? : Step → Spelling → Option Spelling
  | .index i, .array items => items[i]?
  | .key k, .object members => members.reverse.lookup k
  | _, _ => none

def Spelling.at? : Route → Spelling → Option Spelling
  | [], t => some t
  | step :: p, t => (part? step t).bind (at? p)

/-! ### The grammar -/

theorem blanks_nil : Blanks [] := by
  simp [Blanks]

/-- A key with its colon and the blanks around it. -/
inductive WrittenKey : String → List Char → Prop where
  | mk {q k b b' : List Char} (hq : Quoted q k) (hb : Blanks b) (hb' : Blanks b') :
      WrittenKey (String.ofList k) ('"' :: (q ++ '"' :: (b ++ ':' :: b')))

/-- A piece of a document: a value, or the items or members after the first with the closing
bracket. -/
inductive Phrase where
  | value (t : Spelling)
  | items (ts : List Spelling)
  | members (ms : List (String × Spelling))

/-- The texts that write a piece of a document. -/
inductive Writes : Phrase → List Char → Prop where
  | null : Writes (.value .null) "null".toList
  | true : Writes (.value (.bool true)) "true".toList
  | false : Writes (.value (.bool false)) "false".toList
  | number (l : Literal) : Writes (.value (.number l)) l.text
  | string {q s : List Char} (hq : Quoted q s) :
      Writes (.value (.string (String.ofList s))) ('"' :: (q ++ ['"']))
  | noArray {b : List Char} (hb : Blanks b) : Writes (.value (.array [])) ('[' :: (b ++ [']']))
  | array {b s u : List Char} {t : Spelling} {ts : List Spelling} (hb : Blanks b)
      (ht : Writes (.value t) s) (hts : Writes (.items ts) u) :
      Writes (.value (.array (t :: ts))) ('[' :: (b ++ (s ++ u)))
  | noItems {b : List Char} (hb : Blanks b) : Writes (.items []) (b ++ [']'])
  | items {b b' s u : List Char} {t : Spelling} {ts : List Spelling} (hb : Blanks b)
      (hb' : Blanks b') (ht : Writes (.value t) s) (hts : Writes (.items ts) u) :
      Writes (.items (t :: ts)) (b ++ ',' :: (b' ++ (s ++ u)))
  | noObject {b : List Char} (hb : Blanks b) :
      Writes (.value (.object [])) ('{' :: (b ++ ['}']))
  | object {b w s u : List Char} {k : String} {t : Spelling} {ms : List (String × Spelling)}
      (hb : Blanks b) (hk : WrittenKey k w) (ht : Writes (.value t) s)
      (hms : Writes (.members ms) u) :
      Writes (.value (.object ((k, t) :: ms))) ('{' :: (b ++ (w ++ (s ++ u))))
  | noMembers {b : List Char} (hb : Blanks b) : Writes (.members []) (b ++ ['}'])
  | members {b b' w s u : List Char} {k : String} {t : Spelling} {ms : List (String × Spelling)}
      (hb : Blanks b) (hb' : Blanks b') (hk : WrittenKey k w) (ht : Writes (.value t) s)
      (hms : Writes (.members ms) u) :
      Writes (.members ((k, t) :: ms)) (b ++ ',' :: (b' ++ (w ++ (s ++ u))))

/-- The text writes the spelling, with blanks around it. -/
inductive Document (t : Spelling) : List Char → Prop where
  | mk {b s b' : List Char} (hb : Blanks b) (ht : Writes (.value t) s) (hb' : Blanks b') :
      Document t (b ++ (s ++ b'))

/-! ### Printed values -/

/-- The spelling of a value that is printed. -/
def spelling : Json → Spelling
  | .null => .null
  | .bool b => .bool b
  | .number n => .number n.literal
  | .string s => .string s
  | .array items => .array (items.map spelling)
  | .object members => .object (members.map fun m => (m.1, spelling m.2))
decreasing_by
  · decreasing_tactic
  · rename_i hm
    have := List.sizeOf_lt_of_mem hm
    obtain ⟨k, v⟩ := m
    simp only [Prod.mk.sizeOf_spec, object.sizeOf_spec] at this ⊢
    omega

/-- A member with the spelling of its value. -/
def spelledMember (m : String × Json) : String × Spelling :=
  (m.1, m.2.spelling)

theorem spelling_object (members : Members) :
    spelling (.object members) = .object (members.map spelledMember) := by
  rw [spelling]
  rfl

theorem lookup_map_spelledMember (key : String) (ms : Members) :
    (ms.map spelledMember).lookup key = (ms.get? key).map spelling :=
  lookup_map_snd (fun _ => spelling) key ms

theorem part?_spelling {P : Number → Prop} {d : Nat} {j : Json} (h : WellFormed P d j)
    (step : Step) : j.spelling.part? step = (j.part? step).map spelling := by
  cases h with
  | null => cases step <;> simp [spelling, Spelling.part?, part?]
  | bool b => cases step <;> simp [spelling, Spelling.part?, part?]
  | number h => cases step <;> simp [spelling, Spelling.part?, part?]
  | string s => cases step <;> simp [spelling, Spelling.part?, part?]
  | array h =>
    rw [spelling]
    cases step with
    | key k => rfl
    | index i => exact List.getElem?_map
  | @object _ members hk h =>
    rw [spelling_object]
    cases step with
    | key k =>
      have hn : ((members.map spelledMember).map Prod.fst).Nodup := by
        rw [List.map_map]
        exact hk
      exact (lookup_reverse_of_nodup hn).trans (lookup_map_spelledMember k members)
    | index i => rfl

theorem WellFormed.part? {P : Number → Prop} {d : Nat} {j v : Json} (h : WellFormed P d j)
    {step : Step} (hv : j.part? step = some v) : ∃ d', WellFormed P d' v := by
  cases h with
  | array h =>
    cases step with
    | key k => simp [Json.part?] at hv
    | index i => exact ⟨_, h v (List.mem_of_getElem? hv)⟩
  | object hk h =>
    cases step with
    | key k => exact ⟨_, h (k, v) (Members.mem_of_get? hv)⟩
    | index i => simp [Json.part?] at hv
  | _ => cases step <;> simp [Json.part?] at hv

/-- **The parts of a spelled value are the parts of the value, spelled.** -/
theorem at?_spelling {P : Number → Prop} : ∀ (p : Route) {d : Nat} {j : Json},
    WellFormed P d j → j.spelling.at? p = (j.at? p).map spelling
  | [], _, _, _ => rfl
  | step :: p, d, j, h => by
    rw [Spelling.at?, at?, part?_spelling h]
    cases hv : j.part? step with
    | none => rfl
    | some v =>
      obtain ⟨d', h'⟩ := h.part? hv
      exact at?_spelling p h'

theorem at?_spelling_number {P : Number → Prop} {d : Nat} {j : Json} {n : Number} {p : Route}
    (h : WellFormed P d j) (hn : j.at? p = some (.number n)) :
    j.spelling.at? p = some (.number n.literal) := by
  rw [at?_spelling p h, hn, Option.map_some, spelling]

theorem writtenKey_quote (key : String) :
    WrittenKey key (quote key ++ [':', ' ']) := by
  have hb : Blanks [' '] := by simp [Blanks, isJsonBlank]
  have h := WrittenKey.mk (quoted_flatMap key.toList) blanks_nil hb
  rw [String.ofList_toList] at h
  simpa [quote] using h

theorem writes_prettyItems {unit level : Nat} (level' : Nat) : ∀ {js : List Json},
    (∀ j ∈ js, Writes (.value j.spelling) (prettyAt unit level j)) →
      Writes (.items (js.map spelling))
        (prettyItems unit level js ++ (newLine unit level' ++ [']']))
  | [], _ => .noItems (blanks_newLine _ _)
  | j :: js, h => by
    have hjs := writes_prettyItems level' fun j hj => h j (List.mem_cons_of_mem _ hj)
    have hw := Writes.items blanks_nil (blanks_newLine unit level)
      (h j List.mem_cons_self) hjs
    rw [prettyItems, List.map_cons]
    simpa using hw

theorem writes_prettyMembers {unit level : Nat} (level' : Nat) : ∀ {ms : Members},
    (∀ m ∈ ms, Writes (.value m.2.spelling) (prettyAt unit level m.2)) →
      Writes (.members (ms.map spelledMember))
        (prettyMembers unit level ms ++ (newLine unit level' ++ ['}']))
  | [], _ => .noMembers (blanks_newLine _ _)
  | (k, j) :: ms, h => by
    have hms := writes_prettyMembers level' fun m hm => h m (List.mem_cons_of_mem _ hm)
    have hw := Writes.members blanks_nil (blanks_newLine unit level)
      (writtenKey_quote k) (h (k, j) List.mem_cons_self) hms
    rw [prettyMembers, List.map_cons, spelledMember]
    simpa using hw

theorem writes_prettyAt {P : Number → Prop} {d : Nat} {j : Json} (h : WellFormed P d j)
    (unit : Nat) : ∀ level : Nat, Writes (.value j.spelling) (prettyAt unit level j) := by
  induction h with
  | null =>
    intro level
    rw [spelling, prettyAt]
    exact .null
  | bool b =>
    intro level
    rw [spelling]
    cases b with
    | true =>
      rw [prettyAt]
      exact .true
    | false =>
      rw [prettyAt]
      exact .false
  | @number d n h =>
    intro level
    rw [spelling, prettyAt, ← n.text_literal]
    exact .number _
  | string s =>
    intro level
    have hw := Writes.string (quoted_flatMap s.toList)
    rw [String.ofList_toList] at hw
    rw [spelling, prettyAt]
    exact hw
  | @array d items h ih =>
    intro level
    rw [spelling]
    cases items with
    | nil =>
      rw [prettyAt]
      exact .noArray blanks_nil
    | cons j js =>
      have hw := Writes.array (blanks_newLine unit (level + 1))
        (ih j List.mem_cons_self (level + 1))
        (writes_prettyItems level fun j hj =>
          ih j (List.mem_cons_of_mem _ hj) (level + 1))
      rw [prettyAt.eq_def]
      simpa using hw
  | @object d members hk h ih =>
    intro level
    rw [spelling_object]
    match members, ih with
    | [], _ =>
      rw [prettyAt]
      exact .noObject blanks_nil
    | (k, j) :: ms, ih =>
      have hw := Writes.object (blanks_newLine unit (level + 1)) (writtenKey_quote k)
        (ih (k, j) List.mem_cons_self (level + 1))
        (writes_prettyMembers level fun m hm =>
          ih m (List.mem_cons_of_mem _ hm) (level + 1))
      rw [prettyAt.eq_def]
      simpa [spelledMember] using hw

/-- **A well-formed value that is printed over several lines is a document.** -/
theorem document_pretty {P : Number → Prop} {d : Nat} {j : Json} (h : WellFormed P d j)
    (unit : Nat) : Document j.spelling (j.pretty unit ++ "\n").toList := by
  have hb : Blanks ['\n'] := by simp [Blanks, isJsonBlank]
  have hd := Document.mk blanks_nil (writes_prettyAt h unit 0) hb
  rw [String.toList_append, pretty, String.toList_ofList]
  exact hd

end Json

end CodeTidy
