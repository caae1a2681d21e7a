import PluginResolution.Association
import PluginResolution.FileTree.Basic

namespace PluginResolution.FileTree

structure Keeps (t t' : FileTree) : Prop where
  current : t'.current = t.current
  directories : ∀ parts, t.node? parts = some .directory → t'.node? parts = some .directory

theorem Keeps.refl (t : FileTree) : Keeps t t :=
  ⟨rfl, fun _ h => h⟩

theorem Keeps.trans {t t' t'' : FileTree} (h : Keeps t t') (h' : Keeps t' t'') : Keeps t t'' :=
  ⟨h'.current.trans h.current, fun parts hd => h'.directories parts (h.directories parts hd)⟩

section Nodes

variable {t : FileTree} {parts other : List String}

theorem ne_nil_of_not_directory (h : t.node? parts ≠ some .directory) : parts ≠ [] := by
  rintro rfl
  exact h rfl

theorem node_put_self (h : parts ≠ []) (n : Node) : (t.put parts n).node? parts = some n := by
  rw [node?, if_neg (by simpa using h), put, List.lookup_cons_self]

theorem node_put_of_ne (h : other ≠ parts) (n : Node) :
    (t.put parts n).node? other = t.node? other := by
  have hne : (other == parts) = false := by simpa using h
  have hrest := lookup_filter_of_ne h t.nodes
  rw [node?, node?, put, List.lookup_cons, hne, hrest]

theorem node_erase_self (h : parts ≠ []) : (t.erase parts).node? parts = none := by
  rw [node?, if_neg (by simpa using h)]
  exact lookup_filter_self parts t.nodes

theorem node_erase_of_ne (h : other ≠ parts) : (t.erase parts).node? other = t.node? other := by
  have hrest := lookup_filter_of_ne h t.nodes
  rw [node?, node?, erase, hrest]

/-- Where no directory is, something may be put. -/
theorem keeps_put (h : t.node? parts ≠ some .directory) (n : Node) : Keeps t (t.put parts n) where
  current := rfl
  directories := by
    intro other ho
    have hne : other ≠ parts := by
      rintro rfl
      exact h ho
    rw [node_put_of_ne hne, ho]

/-- A file makes no directory. -/
theorem keeps_of_put_file (parts : List String) (c : Content) :
    Keeps (t.put parts (.file c)) t where
  current := rfl
  directories := by
    intro other ho
    by_cases hparts : other = parts
    · subst hparts
      cases other with
      | nil => rfl
      | cons name rest =>
        rw [node_put_self (by simp)] at ho
        cases ho
    · rwa [node_put_of_ne hparts] at ho

theorem keeps_erase (h : t.node? parts ≠ some .directory) : Keeps t (t.erase parts) where
  current := rfl
  directories := by
    intro other ho
    have hne : other ≠ parts := by
      rintro rfl
      exact h ho
    rw [node_erase_of_ne hne, ho]

end Nodes

section Paths

variable {t t' : FileTree} {path : String} {place : Place}

theorem walk_keeps (hk : Keeps t t') {dir names : List String}
    (h : t.walk dir names = .ok place) : t'.walk dir names = .ok place := by
  -- on the names; the nodes on the way are directories, all but the last one
  induction names generalizing dir with
  | nil => exact h
  | cons name rest ih =>
    rw [walk] at h ⊢
    split at h
    · rename_i hdot
      rw [if_pos hdot]
      exact ih h
    rename_i hdot
    rw [if_neg hdot]
    split at h
    · rename_i hup
      rw [if_pos hup]
      exact ih h
    rename_i hup
    rw [if_neg hup]
    split at h
    · cases h
    rename_i hlong
    rw [if_neg hlong]
    split at h
    · rename_i hlast
      rw [if_pos hlast]
      exact h
    rename_i hlast
    rw [if_neg hlast]
    split at h
    · cases h
    · cases h
    · rename_i hnode
      rw [hk.directories _ hnode]
      exact ih h

/-- A path that leads somewhere leads there as long as the directories stay. -/
theorem locate_keeps (hk : Keeps t t') (h : t.locate path = .ok place) :
    t'.locate path = .ok place := by
  unfold locate at h ⊢
  split at h
  · cases h
  rename_i hnul
  rw [if_neg hnul]
  split at h
  · cases h
  rename_i hempty
  rw [if_neg hempty]
  split at h
  · cases h
  rename_i hlong
  rw [if_neg hlong, hk.current]
  dsimp only at h ⊢
  cases hw : t.walk (if Path.isAbsolute path then [] else t.current)
      ((Path.segments path).filter (· ≠ "")) with
  | error e =>
    rw [hw] at h
    cases h
  | ok p =>
    rw [hw] at h
    rw [walk_keeps hk hw]
    exact h

end Paths

structure Fits (t : FileTree) (path : String) (place : Place) : Prop where
  located : t.locate path = .ok place
  named : place.asDirectory = false
  free : t.node? place.parts ≠ some .directory

section Files

variable {t t' : FileTree} {path : String} {place : Place} {c : Content}

theorem Fits.write (h : Fits t path place) (c : Content) :
    t.write path c = .ok (t.put place.parts (.file c)) := by
  have hfree := h.free
  rw [FileTree.write, h.located]
  simp only [bind, Except.bind, h.named, Bool.false_eq_true, if_false]
  rfl

theorem fits_of_write (h : t.write path c = .ok t') :
    ∃ place, Fits t path place ∧ t' = t.put place.parts (.file c) := by
  unfold FileTree.write at h
  cases hl : t.locate path with
  | error e =>
    rw [hl] at h
    cases h
  | ok place =>
    rw [hl] at h
    simp only [bind, Except.bind] at h
    split at h
    · cases h
    rename_i hnamed
    split at h
    · cases h
    · rename_i hfree
      cases h
      exact ⟨place, ⟨hl, by simpa using hnamed, hfree⟩, rfl⟩

theorem Fits.keeps_put (h : Fits t path place) (n : Node) : Keeps t (t.put place.parts n) :=
  FileTree.keeps_put h.free n

/-- What holds a file now holds it as long as the directories stay and none takes its place. -/
theorem Fits.of_keeps (h : Fits t path place) (hk : Keeps t t')
    (hfree : t'.node? place.parts ≠ some .directory) : Fits t' path place :=
  ⟨locate_keeps hk h.located, h.named, hfree⟩

theorem stat_eq (h : t.locate path = .ok place) {n : Node} (hn : t.node? place.parts = some n)
    (hd : n ≠ .directory → place.asDirectory = false) : t.stat path = .ok n := by
  rw [stat, h]
  simp only [bind, Except.bind, hn]
  cases n with
  | directory => rfl
  | file c =>
    have hnamed := hd (by simp)
    simp only [hnamed]
    rfl

theorem Fits.read (h : Fits t path place) (hc : t.node? place.parts = some (.file c)) :
    t.read path = .ok c := by
  rw [FileTree.read, stat_eq h.located hc fun _ => h.named]
  rfl

theorem fits_of_read (h : t.read path = .ok c) :
    ∃ place, Fits t path place ∧ t.node? place.parts = some (.file c) := by
  unfold FileTree.read stat at h
  cases hl : t.locate path with
  | error e =>
    rw [hl] at h
    cases h
  | ok place =>
    rw [hl] at h
    simp only [bind, Except.bind] at h
    cases hn : t.node? place.parts with
    | none =>
      rw [hn] at h
      cases h
    | some n =>
      rw [hn] at h
      cases n with
      | directory => cases h
      | file c' =>
        cases hd : place.asDirectory with
        | true => simp [hd] at h
        | false =>
          simp only [hd] at h
          cases h
          exact ⟨place, ⟨hl, hd, by simp [hn]⟩, hn⟩

/-- What was written is read back. -/
theorem read_of_write (h : t.write path c = .ok t') : t'.read path = .ok c := by
  obtain ⟨place, hf, rfl⟩ := fits_of_write h
  have hself := node_put_self (t := t) (ne_nil_of_not_directory hf.free) (.file c)
  have hafter := hf.of_keeps (hf.keeps_put (.file c)) (by rw [hself]; simp)
  exact hafter.read hself

/-- What can be read can be replaced. -/
theorem write_of_read (h : t.read path = .ok c) (c' : Content) :
    ∃ t', t.write path c' = .ok t' := by
  obtain ⟨place, hf, -⟩ := fits_of_read h
  exact ⟨_, hf.write c'⟩

theorem rename_of_fits {source target : String} {a b : Place} (ha : t.locate source = .ok a)
    (hb : Fits t target b) (hdots : [source, target].any Path.endsInDots = false) {n : Node}
    (hn : t.node? a.parts = some n) :
    t.rename source target = .ok ((t.erase a.parts).put b.parts n) := by
  have hfree := hb.free
  rw [rename, ha]
  simp only [bind, Except.bind, hb.located, hdots, hn, hb.named, Bool.false_eq_true, if_false]
  rfl

/-- A file is moved away from its place and over what is at the other one. -/
theorem of_rename {source target : String} (h : t.rename source target = .ok t') :
    ∃ a n b, t.locate source = .ok a ∧ t.node? a.parts = some n ∧ Fits t target b ∧
      [source, target].any Path.endsInDots = false ∧
      t' = (t.erase a.parts).put b.parts n := by
  unfold rename at h
  cases ha : t.locate source with
  | error e =>
    rw [ha] at h
    cases h
  | ok a =>
    cases hb : t.locate target with
    | error e =>
      rw [ha, hb] at h
      cases h
    | ok b =>
      rw [ha, hb] at h
      simp only [bind, Except.bind] at h
      split at h
      · cases h
      rename_i hdots
      split at h
      · cases h
      rename_i n hn
      split at h
      · cases h
      rename_i hnamed
      split at h
      · cases h
      rename_i hfree
      cases h
      exact ⟨a, n, b, rfl, hn, ⟨hb, by simpa using hnamed, hfree⟩, by simpa using hdots, rfl⟩

end Files

section Directories

variable {t t' : FileTree} {path : String}

theorem run_bind {ε α β : Type} (a : ExceptT ε (StateM FileTree) α)
    (f : α → ExceptT ε (StateM FileTree) β) (t : FileTree) :
    (a >>= f) t = match a t with
      | (.ok x, t') => f x t'
      | (.error e, t') => (.error e, t') := by
  change (match a t with | (r, t') => ExceptT.bindCont f r t') = _
  cases a t with
  | mk r t' =>
    cases r with
    | ok x => rfl
    | error e => rfl

theorem isDirectory_iff :
    t.isDirectory path = true ↔
      ∃ place, t.locate path = .ok place ∧ t.node? place.parts = some .directory := by
  constructor
  · intro h
    unfold isDirectory stat at h
    cases hl : t.locate path with
    | error e => simp [hl, bind, Except.bind] at h
    | ok place =>
      refine ⟨place, rfl, ?_⟩
      simp only [hl, bind, Except.bind] at h
      cases hn : t.node? place.parts with
      | none => simp [hn, throw, throwThe, MonadExceptOf.throw] at h
      | some n =>
        cases n with
        | directory => rfl
        | file c =>
          rw [hn] at h
          cases hd : place.asDirectory <;> simp [hd, pure, Except.pure, throw, throwThe,
            MonadExceptOf.throw] at h
  · rintro ⟨place, hl, hn⟩
    rw [isDirectory, stat_eq hl hn fun h => absurd rfl h]

theorem isDirectory_keeps (hk : Keeps t t') (h : t.isDirectory path = true) :
    t'.isDirectory path = true := by
  obtain ⟨place, hl, hn⟩ := isDirectory_iff.mp h
  exact isDirectory_iff.mpr ⟨place, locate_keeps hk hl, hk.directories _ hn⟩

theorem isDirectory_of_makeDir (h : t.makeDir path = .ok t') : t'.isDirectory path = true := by
  unfold makeDir at h
  cases hl : t.locate path with
  | error e =>
    rw [hl] at h
    cases h
  | ok place =>
    rw [hl] at h
    simp only [bind, Except.bind] at h
    cases hn : t.node? place.parts with
    | some n =>
      rw [hn] at h
      cases h
    | none =>
      rw [hn] at h
      cases h
      have hfree : t.node? place.parts ≠ some .directory := by simp [hn]
      have hk := keeps_put hfree .directory
      have hself := node_put_self (t := t) (ne_nil_of_not_directory hfree) .directory
      exact isDirectory_iff.mpr ⟨place, locate_keeps hk hl, hself⟩

theorem makeDir_of_directory (h : t.isDirectory path = true) :
    t.makeDir path = .error .present := by
  obtain ⟨place, hl, hn⟩ := isDirectory_iff.mp h
  rw [makeDir, hl]
  simp only [bind, Except.bind, hn]
  rfl

theorem ensureDir_eq (path : String) (t : FileTree) :
    ensureDir path t = match t.makeDir path with
      | .ok t' => (.ok (), t')
      | .error e => if t.isDirectory path then (.ok (), t) else (.error e, t) := by
  change (match t.makeDir path with
    | .ok t' => (set t' : Action Unit)
    | .error e => if t.isDirectory path then (pure () : Action Unit) else throw e) t = _
  cases t.makeDir path with
  | ok t' => rfl
  | error e => cases t.isDirectory path <;> rfl

theorem makeDirsWithin_eq (depth : Nat) (path : String) (t : FileTree) :
    makeDirsWithin (depth + 1) path t =
      if path.isEmpty then (.ok (), t)
      else match t.makeDir path with
        | .ok t' => (.ok (), t')
        | .error .missing =>
          match makeDirsWithin depth ((Path.parent? path).getD "") t with
          | (.ok (), t') => ensureDir path t'
          | (.error e, t') => (.error e, t')
        | .error e => if t.isDirectory path then (.ok (), t) else (.error e, t) := by
  rw [makeDirsWithin]
  cases path.isEmpty with
  | true => rfl
  | false =>
    change (match t.makeDir path with
      | .ok t' => (set t' : Action Unit)
      | .error .missing => do
        makeDirsWithin depth ((Path.parent? path).getD "")
        ensureDir path
      | .error e => if t.isDirectory path then (pure () : Action Unit) else throw e) t = _
    cases t.makeDir path with
    | ok t' => rfl
    | error e =>
      -- only when the directory around it is missing that is made first
      cases e with
      | missing =>
        let above := makeDirsWithin depth ((Path.parent? path).getD "")
        refine (run_bind above (fun _ => ensureDir path) t).trans ?_
        cases hmade : above t with
        | mk r t' =>
          simp only [above] at hmade
          simp only [hmade]
          cases r with
          | ok => rfl
          | error e => rfl
      | _ => cases t.isDirectory path <;> rfl

theorem isDirectory_of_ensureDir (h : ensureDir path t = (.ok (), t')) :
    t'.isDirectory path = true := by
  rw [ensureDir_eq] at h
  split at h
  · rename_i hmake
    cases h
    exact isDirectory_of_makeDir hmake
  · split at h
    · rename_i hdir
      cases h
      exact hdir
    · cases h

/-- A directory that was made is there. -/
theorem isDirectory_of_makeDirs (h : makeDirs path t = (.ok (), t')) :
    path.isEmpty = true ∨ t'.isDirectory path = true := by
  rw [makeDirs, makeDirsWithin_eq] at h
  split at h
  · rename_i hempty
    exact .inl hempty
  right
  split at h
  · rename_i hmake
    cases h
    exact isDirectory_of_makeDir hmake
  · split at h
    · exact isDirectory_of_ensureDir h
    · cases h
  · split at h
    · rename_i hdir
      cases h
      exact hdir
    · cases h

/-- Nothing is made of a directory that is there. -/
theorem makeDirs_of_directory (h : path.isEmpty = true ∨ t.isDirectory path = true) :
    makeDirs path t = (.ok (), t) := by
  rw [makeDirs, makeDirsWithin_eq]
  rcases h with hempty | hdir
  · rw [if_pos hempty]
  · cases path.isEmpty with
    | true => rfl
    | false =>
      rw [makeDir_of_directory hdir]
      simp only [hdir, Bool.false_eq_true, if_false, if_true]

end Directories

end PluginResolution.FileTree
