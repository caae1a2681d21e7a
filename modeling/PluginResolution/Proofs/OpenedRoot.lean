import PluginResolution.Command.Session
import PluginResolution.Proofs.LedgerBackends
import PluginResolution.Proofs.SettingsText
import PluginResolution.Proofs.SparedFiles

namespace PluginResolution

open FileTree (Spares)

namespace FileTree

/-- The directory is there; the empty path stands for the current one. -/
def HasDirectory (t : FileTree) (path : String) : Prop :=
  path.isEmpty = true ∨ t.isDirectory path = true

variable {t t' : FileTree} {path : String}

theorem HasDirectory.of_keeps (h : t.HasDirectory path) (hk : Keeps t t') : t'.HasDirectory path :=
  h.imp_right (isDirectory_keeps hk)

end FileTree

namespace Path

/-- The parent of a joined path is the path that the name was joined to. -/
theorem parent_join {base name : String} (hname : IsPlain name) {c b : Char}
    (hlast : name.toList.getLast? = some c) (hletter : c ≠ '/' ∧ c ≠ '.')
    (hbase : base.toList.getLast? = some b) (hbletter : b ≠ '/' ∧ b ≠ '.') :
    parent? (join base name) = some base := by
  obtain ⟨cs, hcs⟩ := List.getLast?_eq_some_iff.mp hlast
  obtain ⟨bs, hbs⟩ := List.getLast?_eq_some_iff.mp hbase
  have hfront : front base = base ++ "/" := by
    have hempty : base.isEmpty = false := by
      rw [Bool.eq_false_iff]
      intro he
      rw [String.isEmpty_iff.mp he] at hbs
      simp at hbs
    rw [front, hempty, hbase]
    simp [hbletter.1]
  have hreverse : (join base name).toList.reverse =
      name.toList.reverse ++ '/' :: base.toList.reverse := by
    rw [join_eq base hname, hfront]
    simp
  have htrim : trimTail (name.toList.reverse ++ '/' :: base.toList.reverse) =
      name.toList.reverse ++ '/' :: base.toList.reverse := trimTail_of_plain hname _
  have hdrop : (name.toList.reverse ++ '/' :: base.toList.reverse).dropWhile (· ≠ '/') =
      '/' :: base.toList.reverse := by
    rw [List.dropWhile_append_of_pos]
    · simp
    · intro d hd
      have hne : d ≠ '/' := by
        rintro rfl
        exact hname.undivided (List.mem_reverse.mp hd)
      simpa using hne
  have hdir : trimTail ('/' :: base.toList.reverse) = base.toList.reverse := by
    rw [hbs, List.reverse_append, List.reverse_singleton, List.singleton_append, trimTail]
    exact trimTail_of_letter hbletter _
  have hne : name.toList.reverse ++ '/' :: base.toList.reverse ≠ ['/'] := by
    simp [hcs, hletter.1]
  rw [parent?, hreverse, htrim, hdrop, hdir, List.reverse_reverse, String.ofList_toList]
  simp [hne]

end Path

namespace Database

structure HasTables (d : Database) : Prop where
  identifiers : d.identifiers.isSome = true
  settings : d.settings.isSome = true

theorem hasTables_withTables (d : Database) : d.withTables.HasTables :=
  ⟨rfl, rfl⟩

theorem HasTables.withTables {d : Database} (h : d.HasTables) : d.withTables = d := by
  obtain ⟨table, htable⟩ := Option.isSome_iff_exists.mp h.identifiers
  obtain ⟨stored, hstored⟩ := Option.isSome_iff_exists.mp h.settings
  cases d
  cases htable
  cases hstored
  rfl

end Database

namespace DataRoot

variable {root path : String} {t t' : FileTree} {d d' : Database}

theorem ensure_of_hasDirectory (h : t.HasDirectory path) : ensure path t = (.ok (), t) := by
  have hmade := FileTree.makeDirs_of_directory h
  rw [ensure]
  rcases h with hempty | hdir
  · have habsent : t.exists? path = false := by
      rw [String.isEmpty_iff.mp hempty]
      rfl
    rw [habsent, hmade]
    rfl
  · cases t.exists? path with
    | true => simp [hdir]
    | false =>
      rw [hmade]
      rfl

theorem of_ensure (h : ensure path t = (.ok (), t')) :
    t'.HasDirectory path ∧ ∀ parts, Spares parts t t' := by
  rw [ensure] at h
  split at h
  · split at h
    · rename_i hdir
      cases h
      exact ⟨.inr hdir, fun parts => .refl parts t⟩
    · cases h
  · have hspares := (FileTree.sameFiles_makeDirs path t).spares
    split at h
    · rename_i t₁ hmade
      cases h
      rw [hmade] at hspares
      exact ⟨FileTree.isDirectory_of_makeDirs hmade, hspares⟩
    · cases h

def directories (root : String) : List String :=
  [root, Path.join root "data", Path.join root "plugins"]

theorem below_of_hasDirectories (h : ∀ path ∈ directories root, t.HasDirectory path) :
    below root t = (.ok (ofRoot root), t) := by
  have hroot := ensure_of_hasDirectory (h root (by simp [directories]))
  have hdata := ensure_of_hasDirectory (h (Path.join root "data") (by simp [directories]))
  have hplugins := ensure_of_hasDirectory (h (Path.join root "plugins") (by simp [directories]))
  rw [below, FileTree.run_bind, hroot]
  simp only [FileTree.run_bind, hdata, hplugins]
  rfl

theorem of_below {r : DataRoot} (h : below root t = (.ok r, t')) :
    r = ofRoot root ∧ (∀ path ∈ directories root, t'.HasDirectory path) ∧
      ∀ parts, Spares parts t t' := by
  rw [below, FileTree.run_bind] at h
  split at h
  · rename_i t₁ hroot
    obtain ⟨hdir₁, hs₁⟩ := of_ensure hroot
    simp only [FileTree.run_bind] at h
    split at h
    · rename_i t₂ hdata
      obtain ⟨hdir₂, hs₂⟩ := of_ensure hdata
      split at h
      · rename_i t₃ hplugins
        obtain ⟨hdir₃, hs₃⟩ := of_ensure hplugins
        cases h
        refine ⟨rfl, ?_, fun parts => ((hs₁ parts).trans (hs₂ parts)).trans (hs₃ parts)⟩
        -- what was made first is still there
        intro path hpath
        simp only [directories, List.mem_cons, List.not_mem_nil, or_false] at hpath
        rcases hpath with rfl | rfl | rfl
        · exact (hdir₁.of_keeps (hs₂ []).keeps).of_keeps (hs₃ []).keeps
        · exact hdir₂.of_keeps (hs₃ []).keeps
        · exact hdir₃
      · cases h
    · cases h
  · cases h

structure Opened (root : String) (t : FileTree) (d : Database) : Prop where
  directories : ∀ path ∈ directories root, t.HasDirectory path
  stored : t.read (ofRoot root).database = .ok (.database d)
  tables : d.HasTables

theorem Opened.of_spares (h : Opened root t d)
    (hs : Spares (t.partsOf (ofRoot root).database) t t') : Opened root t' d where
  directories path hpath := (h.directories path hpath).of_keeps hs.keeps
  stored := hs.read h.stored
  tables := h.tables

theorem opened_of_write (h : ∀ path ∈ DataRoot.directories root, t.HasDirectory path)
    (hw : t.write (ofRoot root).database (.database d) = .ok t') (htables : d.HasTables) :
    Opened root t' d where
  directories := by
    obtain ⟨place, hf, rfl⟩ := FileTree.fits_of_write hw
    exact fun path hpath => (h path hpath).of_keeps (hf.keeps_put _)
  stored := FileTree.read_of_write hw
  tables := htables

/-- Once the directories are there only the database is made. -/
theorem setUp_eq (h : ∀ path ∈ DataRoot.directories root, t.HasDirectory path) :
    Storage.setUp (ofRoot root).database t =
      match Storage.openAt t (ofRoot root).database with
      | .error e => (.error e, t)
      | .ok d => match t.write (ofRoot root).database (.database d.withTables) with
        | .ok t' => (.ok (), t')
        | .error _ => (.error .cannotOpen, t) := by
  have hparent : Path.parent? (ofRoot root).database = some (Path.join root "data") := by
    have hdata : Path.IsPlain "data" := ⟨by decide, by decide⟩
    have hlast : (Path.join root "data").toList.getLast? = some 'a' := by
      rw [Path.join_eq root hdata, String.toList_append, List.getLast?_append]
      rfl
    exact Path.parent_join (c := 'b') ⟨by decide, by decide⟩ (by decide) (by decide) hlast
      (by decide)
  -- the directory around the database is one of those that are there
  have hmade := FileTree.makeDirs_of_directory (h (Path.join root "data") (by simp [directories]))
  rw [Storage.setUp, hparent]
  cases ho : Storage.openAt t (ofRoot root).database with
  | error e => simp only [hmade, ho]
  | ok d =>
    cases hw : t.write (ofRoot root).database (.database d.withTables) with
    | error e => simp only [hmade, ho, hw]
    | ok t' => simp only [hmade, ho, hw]

structure Opens (root : String) (t : FileTree) (d : Database) (t' : FileTree) : Prop where
  opening : ∃ t₁, below root t = (.ok (ofRoot root), t₁) ∧
    Storage.setUp (ofRoot root).database t₁ = (.ok (), t')
  opened : Opened root t' d

/-- What was opened is opened again, and no other file is changed then. -/
theorem Opened.opens_sparing (h : Opened root t d) :
    ∃ t', Opens root t d t' ∧
      ∀ parts, t.partsOf (ofRoot root).database ≠ parts → Spares parts t t' := by
  obtain ⟨t', hw⟩ := FileTree.write_of_read h.stored (.database d)
  refine ⟨t', ⟨⟨t, below_of_hasDirectories h.directories, ?_⟩,
    opened_of_write h.directories hw h.tables⟩, fun parts => FileTree.spares_write hw⟩
  rw [setUp_eq h.directories, Storage.openAt, h.stored]
  simp only [Storage.databaseOf, h.tables.withTables, hw]

theorem Opened.opens (h : Opened root t d) : ∃ t', Opens root t d t' := by
  obtain ⟨t', hopens, -⟩ := h.opens_sparing
  exact ⟨t', hopens⟩

/-- The directories can be made, no database is in them, and one can be made. -/
def Fresh (root : String) (t : FileTree) : Prop :=
  ∃ t₁ t₂, below root t = (.ok (ofRoot root), t₁) ∧
    t₁.read (ofRoot root).database = .error .missing ∧
    Storage.setUp (ofRoot root).database t₁ = (.ok (), t₂)

/-- A root that was opened holds the database that was there, with its tables. -/
theorem opens_of_setUp {r : DataRoot} {t₁ : FileTree} (hbelow : below root t = (.ok r, t₁))
    (hset : Storage.setUp (ofRoot root).database t₁ = (.ok (), t')) :
    ∃ d, Storage.openAt t₁ (ofRoot root).database = .ok d ∧ Opens root t d.withTables t' := by
  obtain ⟨hr, hdirs, -⟩ := of_below hbelow
  have hopening := hset
  rw [setUp_eq hdirs] at hset
  cases ho : Storage.openAt t₁ (ofRoot root).database with
  | error e =>
    rw [ho] at hset
    cases hset
  | ok d =>
    rw [ho] at hset
    dsimp only at hset
    split at hset
    · rename_i t₂ hw
      cases hset
      exact ⟨d, rfl, ⟨t₁, hr ▸ hbelow, hopening⟩,
        opened_of_write hdirs hw (Database.hasTables_withTables d)⟩
    · cases hset

theorem Fresh.opens (h : Fresh root t) : ∃ t', Opens root t (Database.withTables {}) t' := by
  obtain ⟨t₁, t₂, hbelow, habsent, hset⟩ := h
  obtain ⟨d, ho, hopens⟩ := opens_of_setUp hbelow hset
  rw [Storage.openAt, habsent] at ho
  cases ho
  exact ⟨t₂, hopens⟩

/-- After the directories are made the root opens as before. -/
theorem Opens.of_below (h : Opens root t d t') {r : DataRoot} {t₁ : FileTree}
    (hbelow : below root t = (.ok r, t₁)) : Opens root t₁ d t' := by
  obtain ⟨t₂, hb, hset⟩ := h.opening
  rw [hbelow] at hb
  cases hb
  exact ⟨⟨t₁, below_of_hasDirectories (DataRoot.of_below hbelow).2.1, hset⟩, h.opened⟩

end DataRoot

structure Storage.IsAt (s : Storage) (root : String) : Prop where
  database : s.database = (DataRoot.ofRoot root).database
  ledger : s.ledger = (DataRoot.ofRoot root).ledger

theorem Storage.isAt_ofRoot (root : String) (backend : Backend) :
    IsAt ⟨(DataRoot.ofRoot root).database, (DataRoot.ofRoot root).ledger, backend⟩ root :=
  ⟨rfl, rfl⟩

section Storage

variable {s : Storage} {root : String} {t : FileTree} {d : Database}

theorem DataRoot.Opened.read (h : Opened root t d) (hs : s.IsAt root) :
    t.read s.database = .ok (.database d) := by
  rw [hs.database, h.stored]

/-- The settings are those in the database, whatever the backend is for records. -/
theorem DataRoot.Opened.loadSettings (h : Opened root t d) (hs : s.IsAt root) :
    s.loadSettings t = (d.loadSettings, t) :=
  Storage.query_of_read (h.read hs) Database.loadSettings

end Storage

namespace Command.Session

open DataRoot (Opened Opens)

def ofStored (root : String) (stored : Settings) (catalogUrl : Option String) : Session where
  root := .ofRoot root
  storage := ⟨(DataRoot.ofRoot root).database, (DataRoot.ofRoot root).ledger,
    (inForce stored catalogUrl).effectiveBackend⟩
  settings := inForce stored catalogUrl

theorem attempt_ok {ε α : Type} {act : ExceptT ε (StateM FileTree) α} {a : α} {t t' : FileTree}
    (h : act t = (.ok a, t')) (explain : ε → Trouble) : attempt explain act t = (.ok a, t') := by
  rw [attempt, h]

variable {root : String} {t t' : FileTree} {d : Database} {stored : Settings}
  {asked : Option String} {around : DataRoot.Surroundings}

/-- Where a root opens a session starts, unless the settings in force are invalid. -/
theorem start_of_opens (h : Opens root t d t') (hd : d.loadSettings = .ok stored)
    (catalogUrl : Option String) (chosen : DataRoot.choose asked around = .ok root) :
    start asked around catalogUrl t =
      match (inForce stored catalogUrl).validate with
      | .error e => (.error (.failure (.ofSettings e)), t')
      | .ok () => (.ok (ofStored root stored catalogUrl), t') := by
  obtain ⟨t₁, hbelow, hset⟩ := h.opening
  have hresolve : DataRoot.resolve asked around t = (.ok (DataRoot.ofRoot root), t₁) := by
    rw [DataRoot.resolve, chosen]
    exact hbelow
  have hload := h.opened.loadSettings (Storage.isAt_ofRoot root .sqlite)
  rw [hd] at hload
  rw [start, FileTree.run_bind, attempt_ok hresolve]
  simp only [FileTree.run_bind, attempt_ok hset]
  rw [attempt_ok hload]
  dsimp only
  cases hv : (inForce stored catalogUrl).validate with
  | error e => rfl
  | ok => rfl

theorem attempt_eq_ok {ε α : Type} {explain : ε → Trouble} {act : ExceptT ε (StateM FileTree) α}
    {a : α} {t t' : FileTree} (h : attempt explain act t = (.ok a, t')) : act t = (.ok a, t') := by
  rw [attempt] at h
  split at h
  · rename_i hact
    cases h
    exact hact
  · cases h

/-- Where a session has started the root has been opened, and the session has its settings. -/
theorem of_start {s : Session} {catalogUrl : Option String}
    (h : start asked around catalogUrl t = (.ok s, t')) :
    ∃ root d stored, DataRoot.choose asked around = .ok root ∧ Opens root t d t' ∧
      d.loadSettings = .ok stored ∧ s = ofStored root stored catalogUrl := by
  rw [start, FileTree.run_bind] at h
  split at h
  · rename_i r t₁ hresolve
    have hresolved := attempt_eq_ok hresolve
    rw [DataRoot.resolve] at hresolved
    cases hc : DataRoot.choose asked around with
    | error e =>
      rw [hc] at hresolved
      cases hresolved
    | ok root =>
      rw [hc] at hresolved
      dsimp only at hresolved
      obtain ⟨rfl, -⟩ := DataRoot.of_below hresolved
      simp only [FileTree.run_bind] at h
      split at h
      · rename_i t₂ hset
        obtain ⟨d, -, hopens⟩ := DataRoot.opens_of_setUp hresolved (attempt_eq_ok hset)
        split at h
        · rename_i stored t₃ hload
          have hloaded := hopens.opened.loadSettings (Storage.isAt_ofRoot root .sqlite)
          rw [attempt_eq_ok hload] at hloaded
          obtain ⟨hd, rfl⟩ := Prod.mk.inj hloaded
          cases hv : (inForce stored catalogUrl).validate with
          | error e =>
            rw [hv] at h
            cases h
          | ok =>
            rw [hv] at h
            cases h
            exact ⟨root, _, stored, rfl, hopens, hd.symm, rfl⟩
        · cases h
      · cases h
  · cases h

/-- Valid settings are made invalid only by a catalog URL that is blank. -/
theorem validate_inForce (catalogUrl : Option String) (valid : stored.validate = .ok ()) :
    (inForce stored catalogUrl).validate =
      if catalogUrl.any Text.isBlankText then .error .emptyCatalogUrl else .ok () := by
  cases catalogUrl with
  | none => exact valid
  | some url =>
    have hnone : stored.fault? = none := by
      rw [Settings.validate] at valid
      cases hf : stored.fault? with
      | none => rfl
      | some e =>
        rw [hf] at valid
        cases valid
    rw [Settings.fault?] at hnone
    split at hnone
    · cases hnone
    · rw [inForce, Settings.validate, Settings.fault?]
      cases hblank : Text.isBlankText url with
      | true => simp [hblank]
      | false =>
        simp only [Option.any_some, hblank, Bool.false_eq_true, if_false]
        rw [hnone]

end Command.Session

end PluginResolution
