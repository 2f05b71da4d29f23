import CodeTidy.Proofs.Host.Below
import Mathlib.Data.List.Lex

/-!
# The order of paths

Paths are ordered as the lists of their components' keys are (`Path.le_iff`), and a key is a list of
numbers, so the order is total and transitive.  Names that are joined to a path stand at the end of
its components (`Path.components_foldl_join`).
-/

namespace CodeTidy

/-! ### Keys -/

/-- The place of a component, and the bytes of its name. -/
def Component.key (c : Component) : List Nat :=
  Path.rank c :: match c with
    | .normal name => name.map UInt8.toNat
    | _ => []

namespace Path

/-- What decides the place of a path. -/
def key (p : Path) : List (List Nat) :=
  p.components.map Component.key

/-- The first path comes before the second, and they are not equal in order. -/
def Precedes (p q : Path) : Prop :=
  le p q = true ∧ le q p = false

instance (p q : Path) : Decidable (Precedes p q) :=
  inferInstanceAs (Decidable (_ ∧ _))

theorem bytesLe_eq_false_iff :
    ∀ {a b : Bytes}, bytesLe a b = false ↔ b.map UInt8.toNat < a.map UInt8.toNat
  | [], b => by simp [bytesLe]
  | x :: a, [] => by simp [bytesLe]
  | x :: a, y :: b => by
    have ih := bytesLe_eq_false_iff (a := a) (b := b)
    have hxy : x = y ↔ x.toNat = y.toNat := UInt8.toNat_inj.symm
    rw [List.map_cons, List.map_cons, List.cons_lt_cons_iff, ← ih, bytesLe, Bool.or_eq_false_iff,
      Bool.and_eq_false_iff, decide_eq_false_iff_not, beq_eq_false_iff_ne, Ne, hxy,
      UInt8.lt_iff_toNat_lt]
    cases bytesLe a b <;> simp <;> omega

theorem key_injective : Function.Injective Component.key := by
  intro a b h
  obtain ⟨hrank, hname⟩ := List.cons.inj h
  cases a <;> cases b <;> simp [rank] at hrank ⊢
  exact List.map_injective_iff.2 (fun _ _ => UInt8.toNat_inj.1) hname

theorem componentLe_eq_false_iff {a b : Component} :
    componentLe a b = false ↔ b.key < a.key := by
  cases a <;> cases b <;>
    simp [componentLe, Component.key, rank, bytesLe_eq_false_iff, List.cons_lt_cons_iff]

theorem componentsLe_eq_false_iff :
    ∀ {as bs : List Component},
      componentsLe as bs = false ↔ bs.map Component.key < as.map Component.key
  | [], bs => by simp [componentsLe]
  | a :: as, [] => by simp [componentsLe]
  | a :: as, b :: bs => by
    rw [componentsLe, List.map_cons, List.map_cons, List.cons_lt_cons_iff]
    split
    · rename_i h
      rw [componentsLe_eq_false_iff, h]
      simp
    · rename_i h
      have hne : b.key ≠ a.key := fun e => h (key_injective e).symm
      rw [componentLe_eq_false_iff]
      simp [hne]

theorem le_eq_false_iff {p q : Path} : le p q = false ↔ q.key < p.key :=
  componentsLe_eq_false_iff

theorem le_iff {p q : Path} : le p q = true ↔ p.key ≤ q.key := by
  rw [← Bool.not_eq_false, le_eq_false_iff, not_lt]

theorem precedes_iff {p q : Path} : p.Precedes q ↔ p.key < q.key := by
  rw [Precedes, le_iff, le_eq_false_iff]
  exact and_iff_right_of_imp le_of_lt

instance : Std.Asymm Precedes where
  asymm _ _ h h' := Bool.false_ne_true (h'.2.symm.trans h.1)

theorem key_eq_iff {p q : Path} : p.key = q.key ↔ p.components = q.components :=
  (List.map_injective_iff.2 key_injective).eq_iff

/-! ### The components of joined paths -/

theorem componentOf?_name {name : Bytes} (h : IsName name) :
    componentOf? name = some (.normal name) := by
  simp [componentOf?, h.ne_nil, h.ne_dot, h.ne_dots]

theorem components_join {dir : Path} {name : Bytes} (hd : dir.bytes ≠ []) (h : IsName name) :
    (dir.join name).components = dir.components ++ [.normal name] := by
  obtain ⟨parts, hne, hjoin, hdir⟩ := FileTree.splitSlashes_join hd h
  have hhead : (parts ++ [name]).head? = (splitSlashes dir.bytes).head? := by
    obtain hdir | hdir := hdir <;> simp [hdir, List.head?_append, List.head?_eq_some_head hne]
  have hparts : (splitSlashes dir.bytes).filterMap componentOf?
      = parts.filterMap componentOf? := by
    obtain hdir | hdir := hdir <;> simp [hdir, componentOf?]
  unfold components
  dsimp only
  rw [FileTree.head?_join hd, hjoin, hhead, List.filterMap_append, hparts, List.append_assoc]
  simp [componentOf?_name h]

theorem components_foldl_join :
    ∀ {names : List Bytes} {dir : Path}, dir.bytes ≠ [] → (∀ name ∈ names, IsName name) →
      (names.foldl join dir).components = dir.components ++ names.map .normal
  | [], _, _, _ => by simp
  | name :: names, dir, hd, h => by
    obtain ⟨hname, hnames⟩ := List.forall_mem_cons.1 h
    rw [List.foldl_cons, components_foldl_join (FileTree.join_ne_nil dir hname) hnames,
      components_join hd hname, List.append_assoc]
    rfl

end Path

end CodeTidy
