import PluginResolution.Proofs.LedgerFile
import PluginResolution.Proofs.PlacedPaths

namespace PluginResolution.FileTree

structure Spares (parts : List String) (t t' : FileTree) : Prop where
  keeps : Keeps t t'
  spared : ∀ c, t.node? parts = some (.file c) → t'.node? parts = some (.file c)

variable {parts : List String} {t t' t'' : FileTree} {path : String}

theorem Spares.refl (parts : List String) (t : FileTree) : Spares parts t t :=
  ⟨.refl t, fun _ h => h⟩

theorem Spares.trans (h : Spares parts t t') (h' : Spares parts t' t'') : Spares parts t t'' :=
  ⟨h.keeps.trans h'.keeps, fun c hc => h'.spared c (h.spared c hc)⟩

/-- The file is read as before. -/
theorem Spares.read (h : Spares (t.partsOf path) t t') {c : Content} (hc : t.read path = .ok c) :
    t'.read path = .ok c := by
  obtain ⟨place, hf, hn⟩ := fits_of_read hc
  rw [← locate_parts hf.located] at h
  have hn' := h.spared c hn
  exact (hf.of_keeps h.keeps (by simp [hn'])).read hn'

section Nodes

variable {other : List String}

theorem spares_put (hne : other ≠ parts) (h : t.node? other ≠ some .directory) (n : Node) :
    Spares parts t (t.put other n) where
  keeps := keeps_put h n
  spared := by
    intro c hc
    rw [node_put_of_ne hne.symm, hc]

theorem spares_erase (hne : other ≠ parts) (h : t.node? other ≠ some .directory) :
    Spares parts t (t.erase other) where
  keeps := keeps_erase h
  spared := by
    intro c hc
    rw [node_erase_of_ne hne.symm, hc]

end Nodes

structure SameFiles (t t' : FileTree) : Prop where
  keeps : Keeps t t'
  files : ∀ parts c, t'.node? parts = some (.file c) ↔ t.node? parts = some (.file c)

theorem SameFiles.refl (t : FileTree) : SameFiles t t :=
  ⟨.refl t, fun _ _ => .rfl⟩

theorem SameFiles.trans (h : SameFiles t t') (h' : SameFiles t' t'') : SameFiles t t'' :=
  ⟨h.keeps.trans h'.keeps, fun parts c => (h'.files parts c).trans (h.files parts c)⟩

theorem SameFiles.spares (h : SameFiles t t') (parts : List String) : Spares parts t t' :=
  ⟨h.keeps, fun c => (h.files parts c).mpr⟩

section Directories

theorem sameFiles_put {other : List String} (h : t.node? other = none) :
    SameFiles t (t.put other .directory) where
  keeps := keeps_put (by simp [h]) .directory
  files := by
    intro parts c
    by_cases hparts : parts = other
    · subst hparts
      have hnil : parts ≠ [] := ne_nil_of_not_directory (t := t) (by simp [h])
      rw [node_put_self hnil, h]
      simp
    · rw [node_put_of_ne hparts]

theorem sameFiles_makeDir (h : t.makeDir path = .ok t') : SameFiles t t' := by
  unfold makeDir at h
  cases hl : t.locate path with
  | error e =>
    rw [hl] at h
    cases h
  | ok place =>
    rw [hl] at h
    simp only [bind, Except.bind] at h
    cases hn : t.node? place.parts with
    | some n =>
      rw [hn] at h
      cases h
    | none =>
      rw [hn] at h
      cases h
      exact sameFiles_put hn

theorem sameFiles_ensureDir (path : String) (t : FileTree) : SameFiles t (ensureDir path t).2 := by
  rw [ensureDir_eq]
  split
  · rename_i hmake
    exact sameFiles_makeDir hmake
  · split
    · exact .refl t
    · exact .refl t

theorem sameFiles_makeDirsWithin (depth : Nat) (path : String) (t : FileTree) :
    SameFiles t (makeDirsWithin depth path t).2 := by
  -- on the number of directories; those above are made before the directory itself
  induction depth generalizing path t with
  | zero => exact .refl t
  | succ depth ih =>
    rw [makeDirsWithin_eq]
    split
    · exact .refl t
    split
    · rename_i hmake
      exact sameFiles_makeDir hmake
    · have habove := ih ((Path.parent? path).getD "") t
      split
      · rename_i t' hmade
        rw [hmade] at habove
        exact habove.trans (sameFiles_ensureDir path t')
      · rename_i e t' hmade
        rwa [hmade] at habove
    · split
      · exact .refl t
      · exact .refl t

/-- Making directories makes no file, and spares all. -/
theorem sameFiles_makeDirs (path : String) (t : FileTree) : SameFiles t (makeDirs path t).2 :=
  sameFiles_makeDirsWithin _ path t

end Directories

section Files

variable {c : Content}

/-- What is put in another place is not read at a path that leads where it led before. -/
theorem read_put_of_ne {other : List String} {n : Node}
    (hl : (t.put other n).locate path = t.locate path) (hne : t.partsOf path ≠ other) :
    (t.put other n).read path = t.read path := by
  rw [FileTree.read, FileTree.read, stat, stat, hl]
  cases hplace : t.locate path with
  | error e => rfl
  | ok place =>
    rw [← locate_parts hplace] at hne
    simp only [bind, Except.bind, node_put_of_ne hne]

theorem spares_write (h : t.write path c = .ok t') (hne : t.partsOf path ≠ parts) :
    Spares parts t t' := by
  obtain ⟨place, hf, rfl⟩ := fits_of_write h
  rw [← locate_parts hf.located] at hne
  exact spares_put hne hf.free _

/-- A file that was just written may be moved. -/
theorem spares_rename {source target : String} (hw : t.write source c = .ok t')
    (h : t'.rename source target = .ok t'') (hs : t.partsOf source ≠ parts)
    (ht : t.partsOf target ≠ parts) : Spares parts t' t'' := by
  obtain ⟨place, hf, rfl⟩ := fits_of_write hw
  obtain ⟨a, n, b, ha, hn, hb, -, rfl⟩ := of_rename h
  have hmoved := locate_keeps (hf.keeps_put (.file c)) hf.located
  rw [ha] at hmoved
  cases hmoved
  rw [node_put_self (ne_nil_of_not_directory hf.free)] at hn
  cases hn
  rw [← locate_parts hf.located] at hs
  have hb' : b.parts ≠ parts := by
    rw [locate_parts hb.located]
    exact ht
  -- the file leaves its place before it takes the other one, which may be the same
  have hgone : Spares parts (t.put place.parts (.file c))
      ((t.put place.parts (.file c)).erase place.parts) :=
    spares_erase hs (by rw [node_put_self (ne_nil_of_not_directory hf.free)]; simp)
  refine hgone.trans (spares_put hb' ?_ _)
  by_cases hab : b.parts = place.parts
  · rw [hab, node_erase_self (ne_nil_of_not_directory hf.free)]
    simp
  · rw [node_erase_of_ne hab]
    exact hb.free

end Files

end PluginResolution.FileTree

namespace PluginResolution.Ledger.File

open FileTree (SameFiles Spares)

variable {parts : List String} {t : FileTree} {path : String}

theorem sameFiles_surround (path : String) (t : FileTree) :
    SameFiles t (surround path t).2 := by
  rw [surround_eq]
  split
  · rename_i dir _
    have hmade := FileTree.sameFiles_makeDirs dir t
    rw [attempt]
    split
    · rename_i hm
      rwa [hm] at hmade
    · rename_i hm
      rwa [hm] at hmade
  · exact .refl t

/-- Two places that are not to be touched: that of the file and that of its draft. -/
theorem spares_replace (hpath : t.partsOf path ≠ parts) (hdraft : t.partsOf (draft path) ≠ parts)
    (m : Contents) : Spares parts t (replace path m t).2 := by
  rw [replace_eq]
  split
  · exact .refl parts t
  · rename_i t₁ hw
    have hdrafted := FileTree.spares_write hw hdraft
    split
    · exact hdrafted
    · rename_i t₂ hr
      exact hdrafted.trans (FileTree.spares_rename hw hr hdraft hpath)

theorem spares_write (hpath : t.partsOf path ≠ parts) (hdraft : t.partsOf (draft path) ≠ parts)
    (m : Contents) : Spares parts t (write path m t).2 := by
  have hdir := (sameFiles_surround path t).spares parts
  rw [write, FileTree.run_bind]
  split
  · rename_i t₁ hs
    rw [hs] at hdir
    have hsame := FileTree.partsOf_of_current hdir.keeps.current
    exact hdir.trans (spares_replace (ne_of_eq_of_ne (hsame path) hpath)
      (ne_of_eq_of_ne (hsame (draft path)) hdraft) m)
  · rename_i e t₁ hs
    rwa [hs] at hdir

theorem spares_upsert (hpath : t.partsOf path ≠ parts) (hdraft : t.partsOf (draft path) ≠ parts)
    (r : Record) : Spares parts t (upsert path r t).2 := by
  cases hblank : Text.isBlankText r.key with
  | true =>
    rw [upsert, hblank]
    exact .refl parts t
  | false =>
    cases hread : read t path with
    | ok m =>
      rw [upsert_of_read hread hblank]
      exact spares_write hpath hdraft _
    | error e =>
      rw [upsert_of_unreadable hread hblank]
      exact .refl parts t

theorem spares_remove (hpath : t.partsOf path ≠ parts) (hdraft : t.partsOf (draft path) ≠ parts)
    (key : String) : Spares parts t (remove path key t).2 := by
  cases hread : read t path with
  | ok m =>
    cases hf : m.find? key with
    | none =>
      rw [remove_of_missing hread hf]
      exact .refl parts t
    | some r =>
      rw [remove_of_found hread hf]
      exact spares_write hpath hdraft _
  | error e =>
    rw [remove_of_unreadable hread]
    exact .refl parts t

end PluginResolution.Ledger.File
