import CodeTidy.Proofs.Host.Writes

/-!
# Paths below a directory

Joining names to a path adds steps at its end (`FileTree.stepsOf_foldl_join`), and steps are
followed one part after the other (`FileTree.follow_append`).  So where no link is in the way, the
path of names below a directory leads nowhere but to the names below its location
(`FileTree.eq_of_resolve_foldl_join`), and it does lead to what stands there unless the path itself
is too long (`FileTree.resolve_foldl_join`).
-/

namespace CodeTidy

namespace Path

theorem splitSlashes_eq_splitOn : ∀ b : Bytes, splitSlashes b = b.splitOn slash
  | [] => (List.splitOn_nil slash).symm
  | b :: bs => by
    rw [splitSlashes, splitSlashes_eq_splitOn bs, List.splitOn_cons_eq_if_modifyHead]
    by_cases h : b = slash
    · rw [if_pos h, if_pos (beq_iff_eq.2 h)]
    · rw [if_neg h, if_neg (by simpa using h)]
      cases hparts : bs.splitOn slash with
      | nil => exact absurd hparts (List.splitOn_ne_nil slash bs)
      | cons p ps => rfl

end Path

namespace FileTree

open CodeTidy.Path

/-! ### The steps of a joined path -/

/-- The step that a part asks for. -/
def stepOf (part : Bytes) : Component :=
  if part = [dot] then .current
  else if part = [dot, dot] then .parent
  else .normal part

/-- The steps of a path but for the one that a slash at the end asks for. -/
def bodyOf (p : Path) : List Component :=
  (if p.bytes.head? = some slash then [.root] else [])
    ++ ((splitSlashes p.bytes).filter (!·.isEmpty)).map stepOf

theorem stepsOf_eq (p : Path) :
    stepsOf p = bodyOf p ++ if p.bytes.getLast? = some slash then [.current] else [] := rfl

theorem stepOf_name {name : Bytes} (h : IsName name) : stepOf name = .normal name := by
  rw [stepOf, if_neg h.ne_dot, if_neg h.ne_dots]

theorem bytes_join {dir : Path} (hd : dir.bytes ≠ []) (name : Bytes) :
    ∃ a, (dir.join name).bytes = a ++ slash :: name ∧
      (dir.bytes = a ++ [slash] ∨ dir.bytes = a ∧ a ≠ []) := by
  unfold join
  split
  · rename_i h
    have hl : dir.bytes.getLast? = some slash := h.resolve_left (by simpa using hd)
    obtain ⟨a, ha⟩ := List.getLast?_eq_some_iff.1 hl
    refine ⟨a, ?_, .inl ha⟩
    dsimp only
    rw [ha, List.append_assoc]
    rfl
  · exact ⟨dir.bytes, rfl, .inr ⟨rfl, hd⟩⟩

theorem getLast?_join {dir : Path} (hd : dir.bytes ≠ []) {name : Bytes} (h : IsName name) :
    (dir.join name).bytes.getLast? ≠ some slash := by
  obtain ⟨a, ha, -⟩ := bytes_join hd name
  have e : (a ++ slash :: name).getLast? = name.getLast? := by
    rw [List.append_cons, List.getLast?_append, List.getLast?_eq_some_getLast h.ne_nil]
    rfl
  rw [ha, e]
  exact fun e => h.notMem (List.mem_of_getLast? e)

theorem head?_join {dir : Path} (hd : dir.bytes ≠ []) (name : Bytes) :
    (dir.join name).bytes.head? = dir.bytes.head? := by
  obtain ⟨a, ha, hdir | ⟨hdir, hne⟩⟩ := bytes_join hd name
  · rw [ha, hdir]
    cases a <;> rfl
  · rw [ha, hdir]
    cases a with
    | nil => exact absurd rfl hne
    | cons b bs => rfl

/-- The name is the last part of a joined path; an empty part before it is dropped. -/
theorem splitSlashes_join {dir : Path} (hd : dir.bytes ≠ []) {name : Bytes} (h : IsName name) :
    ∃ parts, parts ≠ [] ∧ splitSlashes (dir.join name).bytes = parts ++ [name] ∧
      (splitSlashes dir.bytes = parts ∨ splitSlashes dir.bytes = parts ++ [[]]) := by
  obtain ⟨a, ha, hdir⟩ := bytes_join hd name
  simp only [splitSlashes_eq_splitOn]
  refine ⟨a.splitOn slash, List.splitOn_ne_nil slash a, ?_, ?_⟩
  · rw [ha, List.splitOn_append_cons_self, List.splitOn_eq_singleton h.notMem]
  · obtain hdir | ⟨hdir, -⟩ := hdir
    · right
      rw [hdir, List.splitOn_append_cons_self, List.splitOn_nil]
    · left
      rw [hdir]

theorem bodyOf_join {dir : Path} {name : Bytes} (hd : dir.bytes ≠ []) (h : IsName name) :
    bodyOf (dir.join name) = bodyOf dir ++ [.normal name] := by
  obtain ⟨parts, -, hjoin, hdir⟩ := splitSlashes_join hd h
  have hparts : (splitSlashes dir.bytes).filter (!·.isEmpty) = parts.filter (!·.isEmpty) := by
    obtain hdir | hdir := hdir <;> simp [hdir]
  rw [bodyOf, bodyOf, head?_join hd, hjoin, hparts, List.filter_append]
  simp [h.ne_nil, stepOf_name h]

theorem join_ne_nil (dir : Path) {name : Bytes} (h : IsName name) :
    (dir.join name).bytes ≠ [] := by
  unfold join
  split <;> simp [h.ne_nil]

theorem stepsOf_foldl_join :
    ∀ {names : List Bytes} {dir : Path}, dir.bytes ≠ [] → names ≠ [] →
      (∀ name ∈ names, IsName name) →
      stepsOf (names.foldl join dir) = bodyOf dir ++ names.map .normal
  | [], _, _, hne, _ => absurd rfl hne
  | [name], dir, hd, _, h => by
    have hname := h name List.mem_cons_self
    rw [List.foldl_cons, List.foldl_nil, stepsOf_eq, if_neg (getLast?_join hd hname),
      bodyOf_join hd hname, List.append_nil]
    rfl
  | name :: next :: names, dir, hd, _, h => by
    obtain ⟨hname, hnames⟩ := List.forall_mem_cons.1 h
    rw [List.foldl_cons, stepsOf_foldl_join (join_ne_nil dir hname) (by simp) hnames,
      bodyOf_join hd hname, List.append_assoc]
    rfl

/-! ### Following steps -/

variable {t : FileTree} {reachable : Location → Bool} {links : Nat} {cwd base l : Location}
  {root p : Path} {names : List Bytes} {e : Entry}

/-- What comes of steps, and of the same steps with others behind them: links that are followed in
the first part may not be followed again. -/
def Continues (t : FileTree) (reachable : Location → Bool) (ys : List Component)
    (part whole : Except OsError Location) : Prop :=
  (∃ e, part = .error e ∧ whole = .error e) ∨
    ∃ links l, part = .ok l ∧ whole = t.follow reachable links l ys

theorem walk_append {jump : Location → Path → List Component → Except OsError Location}
    {ys : List Component}
    (hnil : ∀ l, ∃ links, t.walk reachable jump l ys = t.follow reachable links l ys)
    (hjump : ∀ l target steps,
      t.Continues reachable ys (jump l target steps) (jump l target (steps ++ ys)))
    (l : Location) (xs : List Component) :
    t.Continues reachable ys (t.walk reachable jump l xs) (t.walk reachable jump l (xs ++ ys)) := by
  fun_induction FileTree.walk t reachable jump l xs with
  | case1 l =>
    obtain ⟨links, hlinks⟩ := hnil l
    exact .inr ⟨links, l, rfl, hlinks⟩
  | case2 l steps hd ih => simpa only [List.cons_append, walk, hd] using ih
  | case3 l steps hd ih => simpa only [List.cons_append, walk, hd] using ih
  | case4 l steps hd ih => simpa only [List.cons_append, walk, hd] using ih
  | case5 l steps hd name hn =>
    exact .inl ⟨_, rfl, by simp only [List.cons_append, walk, hd, if_pos hn]⟩
  | case6 l steps hd name hn hk =>
    exact .inl ⟨_, rfl, by simp only [List.cons_append, walk, hd, if_neg hn, hk]⟩
  | case7 l steps hd name hn target hk =>
    simpa only [List.cons_append, walk, hd, if_neg hn, hk] using hjump l target steps
  | case8 l steps hd name hn e hk he ih =>
    have hstep : t.walk reachable jump l (.normal name :: (steps ++ ys))
        = t.walk reachable jump (l ++ [name]) (steps ++ ys) := by
      cases e with
      | link target => exact absurd rfl (hk target)
      | file content executable => simp only [walk, hd, if_neg hn, he]
      | dir => simp only [walk, hd, if_neg hn, he]
    rw [List.cons_append, hstep]
    exact ih
  | case9 l step steps hd =>
    refine .inl ⟨_, rfl, ?_⟩
    rw [List.cons_append]
    unfold walk
    split
    · rename_i hd'
      exact absurd hd' hd
    · rfl

/-- Steps are followed one part after the other. -/
theorem follow_append (t : FileTree) (reachable : Location → Bool) (ys : List Component) :
    ∀ (links : Nat) (l : Location) (xs : List Component),
      t.Continues reachable ys (t.follow reachable links l xs)
        (t.follow reachable links l (xs ++ ys))
  | 0, l, xs => walk_append (fun _ => ⟨0, rfl⟩) (fun _ _ _ => .inl ⟨_, rfl, rfl⟩) l xs
  | links + 1, l, xs => by
    refine walk_append (fun _ => ⟨links + 1, rfl⟩) (fun l target steps => ?_) l xs
    rw [← List.append_assoc]
    exact follow_append t reachable ys links l (stepsOf target ++ steps)

theorem eq_of_walk {reachable' : Location → Bool}
    {jump jump' : Location → Path → List Component → Except OsError Location}
    (hjump : ∀ {l target steps k k'}, jump l target steps = .ok k →
      jump' l target steps = .ok k' → k = k') {k k' : Location} {steps : List Component}
    (h : t.walk reachable jump l steps = .ok k) (h' : t.walk reachable' jump' l steps = .ok k') :
    k = k' := by
  fun_induction FileTree.walk t reachable jump l steps with
  | case1 l =>
    rw [walk] at h'
    exact (Except.ok.inj h).symm.trans (Except.ok.inj h')
  | case2 l steps hd ih =>
    simp only [walk, hd] at h'
    exact ih h h'
  | case3 l steps hd ih =>
    simp only [walk, hd] at h'
    exact ih h h'
  | case4 l steps hd ih =>
    simp only [walk, hd] at h'
    exact ih h h'
  | case5 => simp at h
  | case6 => simp at h
  | case7 l steps hd name hn target hk =>
    simp only [walk, hd, hk] at h'
    split at h'
    · simp at h'
    · exact hjump h h'
  | case8 l steps hd name hn e hk he ih =>
    have hnext : t.walk reachable' jump' (l ++ [name]) steps = .ok k' := by
      simp only [walk, hd] at h'
      split at h'
      · simp at h'
      · cases e with
        | link target => exact absurd rfl (hk target)
        | file content executable => simpa only [he] using h'
        | dir => simpa only [he] using h'
    exact ih h hnext
  | case9 => simp at h

/-- What can be asked for decides whether steps lead somewhere, but not where. -/
theorem eq_of_follow {reachable' : Location → Bool} :
    ∀ {links : Nat} {l k k' : Location} {steps : List Component},
      t.follow reachable links l steps = .ok k → t.follow reachable' links l steps = .ok k' → k = k'
  | 0, _, _, _, _, h, h' => eq_of_walk (fun h _ => by simp at h) h h'
  | _ + 1, _, _, _, _, h, h' => eq_of_walk eq_of_follow h h'

/-! ### Where there are no links -/

/-- Steps are walked, whatever happens at links. -/
theorem exists_walk (t : FileTree) (reachable : Location → Bool) (links : Nat) :
    ∃ jump, t.follow reachable links = t.walk reachable jump := by
  cases links <;> exact ⟨_, rfl⟩

variable {jump : Location → Path → List Component → Except OsError Location}

/-- Names lead downwards where there are no links. -/
theorem walk_names :
    ∀ {names : List Bytes} {base l : Location},
      (∀ n, 0 < n → n ≤ names.length → ∀ target,
        t.get? (base ++ names.take n) ≠ some (.link target)) →
      t.walk reachable jump base (names.map .normal) = .ok l → l = base ++ names
  | [], _, _, _, h => by
    rw [List.map_nil, walk] at h
    simp [Except.ok.inj h]
  | name :: names, base, l, hno, h => by
    have hfirst : ∀ target, t.get? (base ++ [name]) ≠ some (.link target) :=
      hno 1 (by omega) (by simp)
    have hrest : ∀ n, 0 < n → n ≤ names.length → ∀ target,
        t.get? (base ++ [name] ++ names.take n) ≠ some (.link target) := by
      intro n hn hle
      rw [List.append_assoc]
      exact hno (n + 1) (by omega) (by simpa using hle)
    rw [List.map_cons] at h
    unfold walk at h
    split at h
    · dsimp only at h
      split at h
      · simp at h
      · split at h
        · simp at h
        · rename_i target hk
          exact absurd hk (hfirst target)
        · rw [walk_names hrest h, List.append_assoc]
          rfl
    · simp at h

/-- Names are walked downwards through directories to what stands at the end, if it is no link. -/
theorem walk_names_eq (he : ∀ target, e ≠ .link target) :
    ∀ {names : List Bytes} {base : Location}, (∀ name ∈ names, Storable name) →
      (∀ n < names.length, t.get? (base ++ names.take n) = some .dir) →
      t.get? (base ++ names) = some e →
      t.walk (fun _ => true) jump base (names.map .normal) = .ok (base ++ names)
  | [], base, _, _, _ => by simp [walk]
  | name :: names, base, hnames, hdirs, hlast => by
    obtain ⟨hname, hnames⟩ := List.forall_mem_cons.1 hnames
    have hbase : t.get? base = some .dir := by simpa using hdirs 0 (by simp)
    have hrest : ∀ n < names.length, t.get? (base ++ [name] ++ names.take n) = some .dir := by
      intro n hn
      have hdir := hdirs (n + 1) (by simpa using hn)
      simpa using hdir
    have hend : t.get? (base ++ [name] ++ names) = some e := by simpa using hlast
    -- what stands at the first name is the end or a directory on the way to it
    obtain ⟨e', hfirst, hnot⟩ : ∃ e', t.get? (base ++ [name]) = some e' ∧
        ∀ target, e' ≠ .link target := by
      cases names with
      | nil => exact ⟨e, by simpa using hend, he⟩
      | cons next names => exact ⟨.dir, by simpa using hrest 0 (by simp), by simp⟩
    have hstep : t.walk (fun _ => true) jump base (.normal name :: names.map .normal)
        = t.walk (fun _ => true) jump (base ++ [name]) (names.map .normal) := by
      have hasked : ¬ (maxName < name.length ∨ true = false) := by
        have hshort := hname.short
        simp only [Bool.true_eq_false, or_false]
        omega
      cases e' with
      | link target => exact absurd rfl (hnot target)
      | file content executable => simp only [walk, hbase, if_neg hasked, hfirst]
      | dir => simp only [walk, hbase, if_neg hasked, hfirst]
    rw [List.map_cons, hstep, walk_names_eq he hnames hrest hend, List.append_assoc]
    rfl

/-! ### Resolution -/

theorem resolve_eq_ok (h : t.resolve cwd p = .ok l) :
    p.bytes ≠ [] ∧ t.follow (fun _ => true) maxLinks cwd (stepsOf p) = .ok l := by
  unfold resolve at h
  split at h
  · simp at h
  · split at h
    · simp at h
    · rename_i hne
      split at h
      · simp at h
      · exact ⟨by simpa using hne, h⟩

theorem canonicalize_eq_ok (h : t.canonicalize cwd p = .ok l) :
    t.follow (fun l => l.toPath.bytes.length ≤ maxPath) maxLinks cwd (stepsOf p) = .ok l := by
  unfold canonicalize at h
  split at h
  · simp at h
  · split at h
    · simp at h
    · exact h

/-- A path that can be resolved in both ways leads to the same. -/
theorem eq_of_canonicalize {k : Location} (h : t.canonicalize cwd p = .ok l)
    (h' : t.resolve cwd p = .ok k) : k = l :=
  eq_of_follow (resolve_eq_ok h').2 (canonicalize_eq_ok h)

theorem exists?_of_resolve (h : t.resolve cwd p = .ok l) : t.exists? cwd p = true := by
  rw [exists?, h]
  rfl

/-- A slash at the end leads nowhere else. -/
theorem follow_bodyOf (h : t.follow reachable links l (stepsOf p) = .ok base) :
    t.follow reachable links l (bodyOf p) = .ok base := by
  rw [stepsOf_eq] at h
  split at h
  · rcases follow_append t reachable [.current] links l (bodyOf p) with
      ⟨e, -, he⟩ | ⟨links', l', hl, he⟩
    · simp [he] at h
    · obtain ⟨jump, hwalk⟩ := exists_walk t reachable links'
      rw [he, hwalk] at h
      unfold walk at h
      split at h
      · simp only [walk] at h
        rw [hl, h]
      · simp at h
  · rwa [List.append_nil] at h

/-- Names that are joined to the path of a directory are followed from its location on. -/
theorem exists_follow_foldl_join (hroot : t.resolve cwd root = .ok base) (hne : names ≠ [])
    (hnames : ∀ name ∈ names, IsName name) :
    ∃ links, t.follow (fun _ => true) maxLinks cwd (stepsOf (names.foldl join root))
      = t.follow (fun _ => true) links base (names.map .normal) := by
  obtain ⟨hr, hbase⟩ := resolve_eq_ok hroot
  rw [stepsOf_foldl_join hr hne hnames]
  rcases follow_append t (fun _ => true) (names.map .normal) maxLinks cwd (bodyOf root) with
    ⟨e, he, -⟩ | ⟨links, l', hl', he⟩
  · simp [follow_bodyOf hbase] at he
  · obtain rfl := Except.ok.inj ((follow_bodyOf hbase).symm.trans hl')
    exact ⟨links, he⟩

/-- **Where no link is in the way, the path of names below a directory leads nowhere but to the
names below its location.** -/
theorem eq_of_resolve_foldl_join (hroot : t.resolve cwd root = .ok base) (hne : names ≠ [])
    (hnames : ∀ name ∈ names, IsName name)
    (hno : ∀ n, 0 < n → n ≤ names.length → ∀ target,
      t.get? (base ++ names.take n) ≠ some (.link target))
    (h : t.resolve cwd (names.foldl join root) = .ok l) : l = base ++ names := by
  obtain ⟨-, hl⟩ := resolve_eq_ok h
  obtain ⟨links, hfollow⟩ := exists_follow_foldl_join hroot hne hnames
  obtain ⟨jump, hwalk⟩ := exists_walk t (fun _ => true) links
  rw [hfollow, hwalk] at hl
  exact walk_names hno hl

/-! ### What stands in a tree -/

theorem mem_of_get? (hl : l ≠ []) (h : t.get? l = some e) : (l, e) ∈ t.entries :=
  Listing.mem_of_get? hl h

theorem get?_of_mem (h : (l, e) ∈ t.entries) : t.get? l = some e := by
  have hl : l ≠ [] := t.proper.ne_nil l (List.mem_map.2 ⟨_, h, rfl⟩)
  rw [get?, Listing.get?_of_ne_nil hl]
  exact lookup_of_mem_of_nodup t.proper.nodup h

theorem get?_append_take (h : (base ++ names, e) ∈ t.entries) {n : Nat} (hn : n < names.length) :
    t.get? (base ++ names.take n) = some .dir := by
  have habove := t.proper.above (List.mem_map.2 ⟨_, h, rfl⟩) (n := base.length + n)
    (by rw [List.length_append]; omega)
  rwa [List.take_append, List.take_of_length_le (by omega), Nat.add_sub_cancel_left] at habove

/-! ### The bytes of a joined path -/

theorem notMem_foldl_join {b : UInt8} (hb : b ≠ slash) :
    ∀ {names : List Bytes} {dir : Path}, b ∉ dir.bytes → (∀ name ∈ names, b ∉ name) →
      b ∉ (names.foldl join dir).bytes
  | [], _, hd, _ => hd
  | name :: names, dir, hd, hnames => by
    obtain ⟨hname, hrest⟩ := List.forall_mem_cons.1 hnames
    have hjoin : b ∉ (dir.join name).bytes := by
      unfold join
      split <;> simp [hd, hname, hb]
    rw [List.foldl_cons]
    exact notMem_foldl_join hb hjoin hrest

theorem foldl_join_ne_nil :
    ∀ {names : List Bytes} {dir : Path}, dir.bytes ≠ [] → (∀ name ∈ names, IsName name) →
      (names.foldl join dir).bytes ≠ []
  | [], _, hd, _ => hd
  | _ :: _, dir, _, hnames => by
    obtain ⟨hname, hrest⟩ := List.forall_mem_cons.1 hnames
    rw [List.foldl_cons]
    exact foldl_join_ne_nil (join_ne_nil dir hname) hrest

/-- **The path of names below a directory leads to what stands there**, when the path is not too
long for the operating system. -/
theorem resolve_foldl_join (hroot : t.resolve cwd root = .ok base) (hne : names ≠ [])
    (he : (base ++ names, e) ∈ t.entries) (hlink : ∀ target, e ≠ .link target)
    (hlength : (names.foldl join root).bytes.length ≤ maxPath) :
    t.resolve cwd (names.foldl join root) = .ok (base ++ names) := by
  have hnames : ∀ name ∈ names, Storable name := fun name hn =>
    t.proper.names _ (List.mem_map.2 ⟨_, he, rfl⟩) name (List.mem_append_right _ hn)
  have hisName : ∀ name ∈ names, IsName name := fun name hn => (hnames name hn).toIsName
  have hnul : 0 ∉ root.bytes := by
    intro h
    simp [resolve, h] at hroot
  have hnul' : 0 ∉ (names.foldl join root).bytes :=
    notMem_foldl_join (by decide) hnul fun name hn => (hnames name hn).noNul
  have hne' : (names.foldl join root).bytes ≠ [] :=
    foldl_join_ne_nil (resolve_eq_ok hroot).1 hisName
  have hlong : ¬ maxPath < (names.foldl join root).bytes.length := by omega
  have hfollow : t.follow (fun _ => true) maxLinks cwd (stepsOf (names.foldl join root))
      = .ok (base ++ names) := by
    obtain ⟨links, hlinks⟩ := exists_follow_foldl_join hroot hne hisName
    obtain ⟨jump, hwalk⟩ := exists_walk t (fun _ => true) links
    rw [hlinks, hwalk]
    exact walk_names_eq hlink hnames (fun _ hn => get?_append_take he hn) (get?_of_mem he)
  simp [resolve, hnul', hne', hlong, hfollow]

end FileTree

end CodeTidy
