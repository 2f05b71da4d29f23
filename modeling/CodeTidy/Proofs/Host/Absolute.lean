import CodeTidy.Proofs.Host.Below

/-!
# Paths from the root

The path of a location says the names on the way to it from the root, and leads there through
directories.  So two trees have the same at the path of a name in a directory
(`FileTree.SameAt`) when they have the same, and no link, under this name
(`FileTree.sameAt_of_get?`).
-/

namespace CodeTidy.FileTree

open CodeTidy.Path

variable {t t' : FileTree} {reachable : Location → Bool} {l : Location}

/-! ### The steps from the root -/

theorem foldl_join_eq : ∀ {names : List Bytes} {dir : Path}, dir.bytes ≠ [] →
    dir.bytes.getLast? ≠ some slash → (∀ name ∈ names, IsName name) →
    names.foldl join dir = ⟨dir.bytes ++ names.flatMap fun name => slash :: name⟩
  | [], _, _, _, _ => by simp
  | name :: names, dir, hd, hlast, h => by
    obtain ⟨hname, hnames⟩ := List.forall_mem_cons.1 h
    have hjoin : dir.join name = ⟨dir.bytes ++ slash :: name⟩ :=
      if_neg (by simpa [hd] using hlast)
    rw [List.foldl_cons, foldl_join_eq (join_ne_nil dir hname) (getLast?_join hd hname) hnames,
      hjoin]
    simp

theorem toPath_eq_foldl_join (hl : l ≠ []) (h : ∀ name ∈ l, IsName name) :
    l.toPath = l.foldl join ⟨[slash]⟩ := by
  cases l with
  | nil => exact absurd rfl hl
  | cons name names =>
    obtain ⟨hname, hnames⟩ := List.forall_mem_cons.1 h
    have hjoin : join ⟨[slash]⟩ name = ⟨slash :: name⟩ := rfl
    have hlast : (slash :: name).getLast? ≠ some slash := by
      have hroot : (⟨[slash]⟩ : Path).bytes ≠ [] := by simp
      have hlast := getLast?_join hroot hname
      rwa [hjoin] at hlast
    rw [List.foldl_cons, hjoin, foldl_join_eq (by simp) hlast hnames]
    rfl

theorem follow_toPath (t : FileTree) (links : Nat) (cwd : Location) (hcwd : t.get? cwd = some .dir)
    (hl : l ≠ []) (h : ∀ name ∈ l, IsName name) :
    t.follow reachable links cwd (stepsOf l.toPath)
      = t.follow reachable links [] (l.map .normal) := by
  have hroot : bodyOf ⟨[slash]⟩ = [.root] := by decide
  obtain ⟨jump, hwalk⟩ := exists_walk t reachable links
  rw [toPath_eq_foldl_join hl h, stepsOf_foldl_join (by simp) hl h, hroot, List.singleton_append,
    hwalk, walk, hcwd]

/-! ### Two trees -/

/-- The trees have the same at a path. -/
structure SameAt (t t' : FileTree) (p : Path) : Prop where
  exists? : t'.exists? [] p = t.exists? [] p
  stat : t'.stat [] p = t.stat [] p

/-- Names lead to the same through directories that both trees have. -/
theorem walk_names_congr {jump jump' : Location → Path → List Component → Except OsError Location} :
    ∀ {names : List Bytes} {base : Location},
      (∀ m < names.length, t.get? (base ++ names.take m) = some .dir) →
      (∀ m < names.length, t'.get? (base ++ names.take m) = some .dir) →
      t'.get? (base ++ names) = t.get? (base ++ names) →
      (∀ target, t.get? (base ++ names) ≠ some (.link target)) →
      t'.walk reachable jump' base (names.map .normal)
        = t.walk reachable jump base (names.map .normal)
  | [], _, _, _, _, _ => by simp [walk]
  | name :: names, base, hdirs, hdirs', hlast, hlink => by
    have hbase : t.get? base = some .dir := by simpa using hdirs 0 (by simp)
    have hbase' : t'.get? base = some .dir := by simpa using hdirs' 0 (by simp)
    have hnext : ∀ {u : FileTree},
        (∀ m < (name :: names).length, u.get? (base ++ (name :: names).take m) = some .dir) →
        ∀ m < names.length, u.get? (base ++ [name] ++ names.take m) = some .dir := by
      intro u hu m hm
      simpa using hu (m + 1) (by simpa using hm)
    have hlast' : t'.get? (base ++ [name] ++ names) = t.get? (base ++ [name] ++ names) := by
      simpa using hlast
    have hlink' : ∀ target, t.get? (base ++ [name] ++ names) ≠ some (.link target) := by
      simpa using hlink
    -- what stands at the first name is a directory of both trees or the end
    have hfirst : t'.get? (base ++ [name]) = t.get? (base ++ [name]) ∧
        ∀ target, t.get? (base ++ [name]) ≠ some (.link target) := by
      cases names with
      | nil => exact ⟨by simpa using hlast', by simpa using hlink'⟩
      | cons next names =>
        have hdir : t.get? (base ++ [name]) = some .dir := by simpa using hnext hdirs 0 (by simp)
        have hdir' : t'.get? (base ++ [name]) = some .dir := by simpa using hnext hdirs' 0 (by simp)
        simp [hdir, hdir']
    have ih : t'.walk reachable jump' (base ++ [name]) (names.map .normal)
        = t.walk reachable jump (base ++ [name]) (names.map .normal) :=
      walk_names_congr (hnext hdirs) (hnext hdirs') hlast' hlink'
    obtain ⟨hsame, hnolink⟩ := hfirst
    rw [List.map_cons]
    simp only [walk, hbase, hbase', hsame]
    split
    · rfl
    · cases he : t.get? (base ++ [name]) with
      | none => rfl
      | some e =>
        cases e with
        | link target => exact absurd he (hnolink target)
        | file content executable => exact ih
        | dir => exact ih

theorem get?_take (hl : t.get? l = some .dir) (m : Nat) : t.get? (l.take m) = some .dir := by
  by_cases hnil : l = []
  · rw [hnil, List.take_nil]
    rfl
  · rcases Nat.lt_or_ge m l.length with hlt | hge
    · exact t.proper.above (List.mem_map.2 ⟨_, mem_of_get? hnil hl, rfl⟩) hlt
    · rwa [List.take_of_length_le hge]

/-- Where a directory of two trees has the same under a name, and no link, the path of the name leads
to the same. -/
theorem sameAt_of_get? (hl : t.get? l = some .dir) (hl' : t'.get? l = some .dir) {name : Bytes}
    (hname : IsName name) (hsame : t'.get? (l ++ [name]) = t.get? (l ++ [name]))
    (hlink : ∀ target, t.get? (l ++ [name]) ≠ some (.link target)) :
    SameAt t t' (l ++ [name]).toPath := by
  have hdirs : ∀ {u : FileTree}, u.get? l = some .dir →
      ∀ m < (l ++ [name]).length, u.get? ([] ++ (l ++ [name]).take m) = some .dir := by
    intro u hul m hm
    rw [List.nil_append,
      List.take_append_of_le_length (by simpa using Nat.lt_succ_iff.1 (by simpa using hm))]
    exact get?_take hul m
  have hnames : ∀ n ∈ l ++ [name], IsName n := by
    intro n hn
    rcases List.mem_append.1 hn with hn | hn
    · exact (t.proper.names_of_get? hl n hn).toIsName
    · rwa [List.mem_singleton.1 hn]
  have hfollow : t'.follow (fun _ => true) maxLinks [] (stepsOf (l ++ [name]).toPath)
      = t.follow (fun _ => true) maxLinks [] (stepsOf (l ++ [name]).toPath) := by
    rw [follow_toPath t' _ _ rfl (by simp) hnames, follow_toPath t _ _ rfl (by simp) hnames]
    exact walk_names_congr (hdirs hl) (hdirs hl') hsame hlink
  have hresolve : t'.resolve [] (l ++ [name]).toPath = t.resolve [] (l ++ [name]).toPath := by
    rw [resolve, resolve, hfollow]
  refine ⟨by rw [exists?, exists?, hresolve], ?_⟩
  unfold stat
  rw [hresolve]
  cases hk : t.resolve [] (l ++ [name]).toPath with
  | error e => rfl
  | ok k =>
    obtain ⟨-, hlead⟩ := resolve_eq_ok hk
    obtain ⟨jump, hwalk⟩ := exists_walk t (fun _ => true) maxLinks
    rw [follow_toPath t _ _ rfl (by simp) hnames, hwalk] at hlead
    obtain rfl : k = [] ++ (l ++ [name]) := by
      refine walk_names (fun n hpos hle target => ?_) hlead
      rcases Nat.lt_or_eq_of_le hle with hlt | rfl
      · rw [hdirs hl n hlt]
        simp
      · rw [List.take_length]
        exact hlink target
    simp only [List.nil_append, bind, Except.bind, hsame]

end CodeTidy.FileTree
