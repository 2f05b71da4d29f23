import CodeTidy.Operation.Perform
import CodeTidy.Lookup

/-!
# Writing files

`FileTree.write` replaces the bytes of one file.  It leaves every other location alone
(`get?_write_of_ne`) and the shape of the tree as it is (`sameShape_write`), so paths lead where
they led before (`SameShape.resolve`).
-/

namespace CodeTidy

namespace FileTree

variable {t t' : FileTree} {l k : Location}

/-! ### What stands where after a write -/

theorem entries_write (t : FileTree) (l : Location) (content : Bytes) :
    (t.write l content).entries
      = t.entries.map fun e => (e.1, if e.1 = l then e.2.setContent content else e.2) := rfl

theorem get?_write (t : FileTree) (l k : Location) (content : Bytes) :
    (t.write l content).get? k
      = (t.get? k).map fun e => if k = l then e.setContent content else e :=
  Listing.get?_replace t.entries (fun k e => if k = l then e.setContent content else e)
    (fun k => by simp [Entry.setContent]) k

theorem get?_write_self (t : FileTree) (l : Location) (content : Bytes) :
    (t.write l content).get? l = (t.get? l).map (Entry.setContent content) := by
  rw [get?_write]
  simp

theorem get?_write_of_ne (h : k ≠ l) (t : FileTree) (content : Bytes) :
    (t.write l content).get? k = t.get? k := by
  rw [get?_write]
  simp [h]

/-! ### Trees of the same shape -/

/-- The tree with the bytes of its files left out. -/
def shape (t : FileTree) : FileTree :=
  ⟨t.entries.map fun e => (e.1, e.2.setContent []),
    t.proper.replace (fun _ e => e.setContent []) fun _ => rfl⟩

theorem entries_shape (t : FileTree) :
    t.shape.entries = t.entries.map fun e => (e.1, e.2.setContent []) := rfl

/-- The trees differ in the bytes of files only. -/
def SameShape (t t' : FileTree) : Prop :=
  t'.shape = t.shape

theorem SameShape.refl (t : FileTree) : t.SameShape t :=
  rfl

theorem SameShape.symm (h : t.SameShape t') : t'.SameShape t :=
  Eq.symm h

theorem SameShape.trans {t'' : FileTree} (h : t.SameShape t') (h' : t'.SameShape t'') :
    t.SameShape t'' :=
  Eq.trans h' h

theorem sameShape_write (t : FileTree) (l : Location) (content : Bytes) :
    t.SameShape (t.write l content) := by
  refine FileTree.ext ?_
  rw [entries_shape, entries_write, entries_shape, List.map_map]
  refine List.map_congr_left fun e _ => ?_
  obtain ⟨k, e⟩ := e
  by_cases h : k = l
  · cases e <;> simp [h, Entry.setContent]
  · simp [h]

theorem get?_shape (t : FileTree) (k : Location) :
    t.shape.get? k = (t.get? k).map (Entry.setContent []) :=
  Listing.get?_replace t.entries (fun _ e => e.setContent []) (fun _ => rfl) k

theorem SameShape.get? (h : t.SameShape t') (k : Location) :
    (t'.get? k).map (Entry.setContent []) = (t.get? k).map (Entry.setContent []) := by
  rw [← get?_shape, ← get?_shape, h]

theorem SameShape.keys (h : t.SameShape t') :
    t'.entries.map Prod.fst = t.entries.map Prod.fst := by
  have hk := congrArg (fun t : FileTree => t.entries.map Prod.fst) h
  simpa [shape, Function.comp_def] using hk

theorem SameShape.get?_of_get? (h : t.SameShape t') {e : Entry}
    (he : ∀ content executable, e ≠ .file content executable) (hk : t.get? k = some e) :
    t'.get? k = some e := by
  have hshape := h.get? k
  rw [hk] at hshape
  obtain ⟨e', hk', hsame⟩ := Option.map_eq_some_iff.1 hshape
  cases e <;> cases e' <;> simp_all [Entry.setContent]

theorem SameShape.dir_iff (h : t.SameShape t') :
    t'.get? k = some .dir ↔ t.get? k = some .dir :=
  ⟨h.symm.get?_of_get? nofun, h.get?_of_get? nofun⟩

theorem SameShape.link_iff (h : t.SameShape t') {target : Path} :
    t'.get? k = some (.link target) ↔ t.get? k = some (.link target) :=
  ⟨h.symm.get?_of_get? nofun, h.get?_of_get? nofun⟩

theorem SameShape.exists_file (h : t.SameShape t')
    (hfile : ∃ content executable, t.get? k = some (.file content executable)) :
    ∃ content executable, t'.get? k = some (.file content executable) := by
  obtain ⟨content, executable, hk⟩ := hfile
  have hshape := h.get? k
  rw [hk] at hshape
  obtain ⟨e', hk', hsame⟩ := Option.map_eq_some_iff.1 hshape
  cases e' with
  | file content' executable' => exact ⟨content', executable', hk'⟩
  | dir => cases hsame
  | link target => cases hsame

theorem SameShape.file_iff (h : t.SameShape t') :
    (∃ content executable, t'.get? k = some (.file content executable)) ↔
      ∃ content executable, t.get? k = some (.file content executable) :=
  ⟨h.symm.exists_file, h.exists_file⟩

theorem SameShape.none_iff (h : t.SameShape t') : t'.get? k = none ↔ t.get? k = none := by
  have hk := h.get? k
  cases e : t.get? k <;> cases e' : t'.get? k <;> simp_all

/-- Only the shape decides where steps lead. -/
theorem SameShape.walk (h : t.SameShape t') (reachable : Location → Bool)
    (jump : Location → Path → List Component → Except OsError Location) (l : Location)
    (steps : List Component) :
    t'.walk reachable jump l steps = t.walk reachable jump l steps := by
  fun_induction FileTree.walk t reachable jump l steps with
  | case1 l => rw [FileTree.walk]
  | case2 l steps hd ih => simp only [FileTree.walk, h.dir_iff.2 hd, ih]
  | case3 l steps hd ih => simp only [FileTree.walk, h.dir_iff.2 hd, ih]
  | case4 l steps hd ih => simp only [FileTree.walk, h.dir_iff.2 hd, ih]
  | case5 l steps hd name hn => simp only [FileTree.walk, h.dir_iff.2 hd, if_pos hn]
  | case6 l steps hd name hn hk =>
    simp only [FileTree.walk, h.dir_iff.2 hd, if_neg hn, h.none_iff.2 hk]
  | case7 l steps hd name hn target hk =>
    simp only [FileTree.walk, h.dir_iff.2 hd, if_neg hn, h.link_iff.2 hk]
  | case8 l steps hd name hn e hk he ih =>
    rw [FileTree.walk, h.dir_iff.2 hd]
    simp only [if_neg hn]
    split
    · rename_i hk'
      simp [h.none_iff.1 hk'] at he
    · rename_i target hk'
      exact (hk target (Option.some.inj (he.symm.trans (h.link_iff.1 hk')))).elim
    · exact ih
  | case9 l step steps hd =>
    unfold FileTree.walk
    split
    · rename_i hd'
      exact absurd (h.dir_iff.1 hd') hd
    · rfl

theorem SameShape.follow (h : t.SameShape t') (reachable : Location → Bool) :
    ∀ (links : Nat) (l : Location) (steps : List Component),
      t'.follow reachable links l steps = t.follow reachable links l steps
  | 0, l, steps => h.walk reachable _ l steps
  | links + 1, l, steps => by
    have ih : (fun l target rest => t'.follow reachable links l (stepsOf target ++ rest))
        = fun l target rest => t.follow reachable links l (stepsOf target ++ rest) :=
      funext fun l => funext fun _ => funext fun _ => h.follow reachable links l _
    rw [FileTree.follow, FileTree.follow, h.walk, ih]

theorem SameShape.resolve (h : t.SameShape t') (cwd : Location) (p : Path) :
    t'.resolve cwd p = t.resolve cwd p := by
  rw [FileTree.resolve, FileTree.resolve, h.follow]

/-! ### Reading after a write -/

theorem resolve_write (t : FileTree) (l cwd : Location) (content : Bytes) (p : Path) :
    (t.write l content).resolve cwd p = t.resolve cwd p :=
  (sameShape_write t l content).resolve cwd p

theorem stat_eq_ok_iff {cwd : Location} {p : Path} {e : Entry} :
    t.stat cwd p = .ok e ↔ ∃ l, t.resolve cwd p = .ok l ∧ t.get? l = some e := by
  unfold stat
  cases t.resolve cwd p with
  | error e => simp [bind, Except.bind]
  | ok l =>
    simp only [bind, Except.bind, Except.ok.injEq, exists_eq_left']
    cases t.get? l <;> simp

theorem isFile_iff {cwd : Location} {p : Path} :
    t.isFile cwd p = true ↔
      ∃ content executable, t.stat cwd p = .ok (.file content executable) := by
  unfold isFile
  split
  · rename_i content executable h
    simp [h]
  · rename_i h
    simpa using fun content executable => h content executable

theorem read_eq_ok_iff {cwd : Location} {p : Path} {content : Bytes} :
    t.read cwd p = .ok content ↔ ∃ l, t.resolve cwd p = .ok l ∧ t.content? l = some content := by
  unfold read stat content?
  cases t.resolve cwd p with
  | error e => simp [bind, Except.bind]
  | ok l =>
    simp only [bind, Except.bind, Except.ok.injEq, exists_eq_left']
    cases t.get? l with
    | none => simp
    | some e => cases e <;> simp

theorem readText_eq_ok_iff {cwd : Location} {p : Path} {text : String} :
    t.readText cwd p = .ok text ↔ t.read cwd p = .ok (Utf8.encode text) := by
  unfold readText
  constructor
  · intro h
    split at h
    · simp at h
    · rename_i b hb
      split at h
      · rename_i text' ht
        obtain rfl := Except.ok.inj h
        rw [hb, Utf8.encode_of_decode? ht]
      · simp at h
  · intro h
    rw [h]
    simp only [Utf8.decode?_encode]

theorem content?_write_self {old : Bytes} (h : t.content? l = some old) (content : Bytes) :
    (t.write l content).content? l = some content := by
  unfold content? at h ⊢
  rw [get?_write_self]
  split at h
  · rename_i e
    rw [e]
    rfl
  · simp at h

theorem read_write_self {cwd : Location} {p : Path} {old : Bytes} (h : t.read cwd p = .ok old)
    (hl : t.resolve cwd p = .ok l) (content : Bytes) :
    (t.write l content).read cwd p = .ok content := by
  obtain ⟨l', hl', hc⟩ := read_eq_ok_iff.1 h
  obtain rfl := Except.ok.inj (hl.symm.trans hl')
  exact read_eq_ok_iff.2 ⟨l, (resolve_write t l cwd content p).trans hl,
    content?_write_self hc content⟩

theorem SameShape.read_eq (h : t.SameShape t') {cwd : Location} {p : Path}
    (hget : ∀ l, t.resolve cwd p = .ok l → t'.get? l = t.get? l) : t'.read cwd p = t.read cwd p := by
  unfold read stat
  rw [h.resolve]
  cases e : t.resolve cwd p with
  | error e => rfl
  | ok l => simp only [bind, Except.bind, hget l e]

end FileTree

/-! ### Writing at a path -/

namespace Site

variable {s : Site} {path : Path} {l : Location}

theorem write_of_resolve (h : s.files.resolve s.workingDirectory path = .ok l) (content : Bytes) :
    s.write path content = { s with files := s.files.write l content } := by
  rw [write, h]

theorem missing_write (s : Site) (path : Path) (content : Bytes) :
    (s.write path content).missing = s.missing := by
  unfold write
  split <;> rfl

theorem get?_write_of_ne (h : s.files.resolve s.workingDirectory path ≠ .ok l) (content : Bytes) :
    (s.write path content).files.get? l = s.files.get? l := by
  unfold write
  split
  · rfl
  · rename_i k hk
    exact FileTree.get?_write_of_ne (fun e => h (by rw [hk, e])) _ _

theorem read_write {old : Bytes} (h : s.files.read s.workingDirectory path = .ok old)
    (content : Bytes) :
    (s.write path content).files.read s.workingDirectory path = .ok content := by
  obtain ⟨l, hl, -⟩ := FileTree.read_eq_ok_iff.1 h
  rw [write_of_resolve hl]
  exact FileTree.read_write_self h hl content

/-- Paths lead in the second site where they lead in the first. -/
structure SamePaths (s s' : Site) : Prop where
  shape : s.files.SameShape s'.files
  workingDirectory : s'.workingDirectory = s.workingDirectory

theorem SamePaths.refl (s : Site) : s.SamePaths s :=
  ⟨.refl _, rfl⟩

theorem SamePaths.trans {s' s'' : Site} (h : s.SamePaths s') (h' : s'.SamePaths s'') :
    s.SamePaths s'' :=
  ⟨h.shape.trans h'.shape, h'.workingDirectory.trans h.workingDirectory⟩

theorem SamePaths.resolve {s' : Site} (h : s.SamePaths s') (p : Path) :
    s'.files.resolve s'.workingDirectory p = s.files.resolve s.workingDirectory p := by
  rw [h.workingDirectory, h.shape.resolve]

theorem samePaths_write (s : Site) (path : Path) (content : Bytes) :
    s.SamePaths (s.write path content) := by
  unfold write
  split
  · exact .refl _
  · exact ⟨FileTree.sameShape_write _ _ _, rfl⟩

end Site

end CodeTidy
