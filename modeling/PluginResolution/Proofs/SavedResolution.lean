import PluginResolution.Proofs.CascadeReports
import PluginResolution.Proofs.RecordedCoordinate
import Mathlib.Data.Prod.Basic

namespace PluginResolution

open DataRoot (Opened)
open FileTree (Keeps Place)

namespace FileTree

variable {t t' : FileTree}

/-- A name behind a path to a directory is looked for in that directory. -/
theorem walk_concat {dir names : List String} {place : Place} (h : t.walk dir names = .ok place)
    (hd : t.node? place.parts = some .directory) (name : String) :
    t.walk dir (names ++ [name]) = t.walk place.parts [name] := by
  -- on the names; the last of them leads to the directory, as those before it lead to others
  induction names generalizing dir with
  | nil =>
    cases h
    rfl
  | cons first rest ih =>
    rw [walk] at h
    rw [List.cons_append, walk]
    split at h
    · rename_i hdot
      rw [if_pos hdot]
      exact ih h
    rename_i hdot
    rw [if_neg hdot]
    split at h
    · rename_i hup
      rw [if_pos hup]
      exact ih h
    rename_i hup
    rw [if_neg hup]
    split at h
    · cases h
    rename_i hlong
    have hmore : (rest ++ [name]).isEmpty = false := by simp
    rw [if_neg hlong, hmore, if_neg Bool.false_ne_true]
    split at h
    · rename_i hlast
      cases h
      rw [hd, List.isEmpty_iff.mp hlast, List.nil_append]
    · split at h
      · cases h
      · cases h
      · exact ih h

/-- Whether there is something under the last name is not asked. -/
theorem walk_last (t t' : FileTree) (dir : List String) (name : String) :
    t.walk dir [name] = t'.walk dir [name] := by
  simp only [walk, List.isEmpty_nil, if_true]

/-- A file in a directory that is there is looked for in the same place as long as the directories
stay. -/
theorem locate_join_keeps {base name : String} (h : t.HasDirectory base)
    (hname : Path.IsPlain name) (hk : Keeps t t') :
    t'.locate (Path.join base name) = t.locate (Path.join base name) := by
  have hsome : name ≠ "" := hname.named.1
  have hwalk (start : List String) (hstart : start = t.start (Path.join base name)) :
      t'.walk start ((Path.segments (Path.join base name)).filter (· ≠ "")) =
        t.walk start ((Path.segments (Path.join base name)).filter (· ≠ "")) := by
    rw [Path.join_eq base hname] at hstart ⊢
    by_cases hbase : base = ""
    · subst hbase
      have hpath : Path.front "" ++ name = name := String.empty_append
      rw [hpath, Path.segments_of_undivided hname.undivided,
        List.filter_cons_of_pos (by simpa using hsome)]
      exact walk_last t' t start name
    · have hdir : t.isDirectory base = true :=
        h.resolve_left fun hempty => hbase (String.isEmpty_iff.mp hempty)
      obtain ⟨place, hl, hnode⟩ := isDirectory_iff.mp hdir
      obtain ⟨p, hw, hp, -⟩ := walk_of_locate hl
      obtain ⟨segs, hpath, hsegs⟩ := Path.segments_front_append hname.undivided hbase
      have hnames : (Path.segments base).filter (· ≠ "") = segs.filter (· ≠ "") := by
        rcases hsegs with hsegs | hsegs
        · rw [hsegs]
        · rw [hsegs, List.filter_append]
          exact List.append_nil _
      have hsame : t.start base = start := by
        rw [hstart, FileTree.start, FileTree.start, Path.isAbsolute_front_append hbase]
      rw [hsame, hnames] at hw
      rw [hp] at hnode
      rw [hpath, List.filter_append, List.filter_cons_of_pos (by simpa using hsome),
        List.filter_nil, walk_concat (walk_keeps hk hw) (hk.directories _ hnode),
        walk_concat hw hnode]
      exact walk_last t' t p.parts name
  have hsame := hwalk _ rfl
  rw [FileTree.start] at hsame
  unfold locate
  rw [hk.current]
  simp only [hsame]

end FileTree

namespace Ledger

/-- The records after one is put among them: it takes the place of the one under its key, or stands
where its key belongs. -/
def Record.putInto (r : Record) (l : List Record) : List Record :=
  if l.any (·.key = r.key) then l.map (Table.replacing r) else Table.insertByKey r l

namespace Table

theorem map_insertByKey (r s : Record) (l : List Record) :
    (insertByKey s l).map (replacing r) = insertByKey (replacing r s) (l.map (replacing r)) := by
  induction l with
  | nil => rfl
  | cons x rest ih =>
    rw [insertByKey, List.map_cons, insertByKey, key_replacing, key_replacing]
    split
    · rfl
    · rw [List.map_cons, ih]

theorem insertByKey_comm_of_lt {r s : Record} (h : r.key < s.key) (l : List Record) :
    insertByKey r (insertByKey s l) = insertByKey s (insertByKey r l) := by
  have hge : ¬ s.key < r.key := String.lt_asymm h
  induction l with
  | nil => simp [insertByKey, h, hge]
  | cons x rest ih =>
    by_cases hr : r.key < x.key
    · by_cases hs : s.key < x.key
      · simp [insertByKey, hr, hs, h, hge]
      · simp [insertByKey, hr, hs, hge]
    · have hs : ¬ s.key < x.key := fun hs => hr (String.lt_trans h hs)
      simp [insertByKey, hr, hs, ih]

/-- The order in which two keys are put in makes no difference. -/
theorem insertByKey_comm {r s : Record} (h : r.key ≠ s.key) (l : List Record) :
    insertByKey r (insertByKey s l) = insertByKey s (insertByKey r l) := by
  by_cases hlt : r.key < s.key
  · exact insertByKey_comm_of_lt hlt l
  · have hgt : s.key < r.key := Decidable.byContradiction fun hge =>
      h (String.le_antisymm (String.not_lt.mp hge) (String.not_lt.mp hlt))
    exact (insertByKey_comm_of_lt hgt l).symm

/-- Rows are added behind the others, and listed where their keys belong. -/
theorem list_concat {r : Record} {rows : List Record} (h : ∀ s ∈ rows, s.key ≠ r.key) :
    (rows ++ [r]).foldr insertByKey [] = insertByKey r (rows.foldr insertByKey []) := by
  induction rows with
  | nil => rfl
  | cons s rest ih =>
    rw [List.cons_append, List.foldr_cons, List.foldr_cons,
      ih fun x hx => h x (List.mem_cons_of_mem _ hx),
      insertByKey_comm (h s List.mem_cons_self)]

theorem list_put (t : Table) (r : Record) : (t.put r).list = r.putInto t.list := by
  have hany : t.list.any (·.key = r.key) = t.rows.any (·.key = r.key) := (list_perm t.rows).any_eq
  rw [put, Record.putInto, hany]
  split
  · -- a record keeps its key when it is replaced, and so its place
    have hmap (rows : List Record) : (rows.map (replacing r)).foldr insertByKey [] =
        (rows.foldr insertByKey []).map (replacing r) := by
      induction rows with
      | nil => rfl
      | cons s rest ih => rw [List.map_cons, List.foldr_cons, ih, ← map_insertByKey, List.foldr_cons]
    exact hmap t.rows
  · rename_i hnone
    refine list_concat fun s hs hkey => hnone ?_
    exact List.any_eq_true.mpr ⟨s, hs, by simpa using hkey⟩

end Table

/-- A record that is put in takes the place of those under its key, and all others stay. -/
theorem mem_putInto {r x : Record} {l : List Record} :
    x ∈ r.putInto l ↔ x = r ∨ x ∈ l ∧ x.key ≠ r.key := by
  rw [Record.putInto]
  split
  · rename_i hsome
    obtain ⟨old, hold, hkey⟩ := List.any_eq_true.mp hsome
    have hkey : old.key = r.key := by simpa using hkey
    constructor
    · intro hx
      obtain ⟨y, hy, rfl⟩ := List.mem_map.mp hx
      by_cases hsame : y.key = r.key
      · exact .inl (if_pos hsame)
      · rw [Table.replacing, if_neg hsame]
        exact .inr ⟨hy, hsame⟩
    · rintro (rfl | ⟨hx, hother⟩)
      · exact List.mem_map.mpr ⟨old, hold, if_pos hkey⟩
      · exact List.mem_map.mpr ⟨x, hx, if_neg hother⟩
  · rename_i hnone
    rw [(Table.insertByKey_perm r l).mem_iff, List.mem_cons]
    refine or_congr_right ⟨fun hx => ⟨hx, fun hkey => hnone ?_⟩, And.left⟩
    exact List.any_eq_true.mpr ⟨x, hx, by simpa using hkey⟩

theorem putInto_sorted {l : List Record} (h : l.Pairwise fun s s' => s.key < s'.key) (r : Record) :
    (r.putInto l).Pairwise fun s s' => s.key < s'.key := by
  rw [Record.putInto]
  split
  · refine List.pairwise_map.mpr (h.imp fun {s s'} hlt => ?_)
    rw [Table.key_replacing, Table.key_replacing]
    exact hlt
  · rename_i hnone
    refine Table.insertByKey_sorted h fun s hs hkey => hnone ?_
    exact List.any_eq_true.mpr ⟨s, hs, by simpa using hkey⟩

theorem Contents.values_insert {m : Contents} (hm : m.Keyed) (r : Record) :
    (m.insert r.key r).values = r.putInto m.values := by
  have hinsert := hm.insert r
  refine Table.eq_of_sorted (values_sorted hinsert) (putInto_sorted (values_sorted hm) r)
    fun x => ?_
  rw [mem_values hinsert, mem_putInto, mem_values hm]
  by_cases hkey : x.key = r.key
  · rw [hkey, KeyMap.find?_insert_self]
    simp [eq_comm]
  · rw [KeyMap.find?_insert_of_ne m r hkey]
    have hne : x ≠ r := fun heq => hkey (congrArg Record.key heq)
    simp [hkey, hne]

/-- What was recorded under a key: a record of the list, or an empty one if there is none. -/
def IsPrevious (key : String) (l : List Record) (old : Record) : Prop :=
  old ∈ l ∧ old.key = key ∨ (∀ x ∈ l, x.key ≠ key) ∧ old = { key }

namespace File

variable {root path : String} {t : FileTree} {r : Record} {e : Error}

/-- The draft is another file than the one that it is to replace, which is looked for in the same
place as long as the directories stay. -/
structure Settled (path : String) (t : FileTree) : Prop where
  around : surround path t = (.ok (), t)
  apart : t.partsOf path ≠ t.partsOf (draft path)
  located : ∀ t', Keeps t t' → t'.locate path = t.locate path

theorem settled_of_hasDirectory (h : t.HasDirectory (Path.join root "plugins")) :
    Settled (DataRoot.ofRoot root).ledger t where
  around := by
    have hplugins : Path.IsPlain "plugins" := ⟨by decide, by decide⟩
    have hlast : (Path.join root "plugins").toList.getLast? = some 's' := by
      rw [Path.join_eq root hplugins, String.toList_append, List.getLast?_append]
      rfl
    have hparent : Path.parent? (DataRoot.ofRoot root).ledger = some (Path.join root "plugins") :=
      Path.parent_join (c := 'n') ⟨by decide, by decide⟩ (by decide) (by decide) hlast (by decide)
    simp only [surround_eq, hparent, attempt, FileTree.makeDirs_of_directory h]
  apart := by
    rw [DataRoot.partsOf_ledger, DataRoot.partsOf_draft]
    simp
  located := fun _ => FileTree.locate_join_keeps h ⟨by decide, by decide⟩

/-- While the draft is there the file is read as before. -/
theorem Settled.read_of_draft (h : Settled path t) {m : Contents} {t' : FileTree}
    (hw : t.write (draft path) (.text m.text) = .ok t') : read t' path = read t path := by
  obtain ⟨place, hfits, rfl⟩ := FileTree.fits_of_write hw
  have hother : t.partsOf path ≠ place.parts := by
    rw [FileTree.locate_parts hfits.located]
    exact h.apart
  have hsame := FileTree.read_put_of_ne
    (h.located _ (hfits.keeps_put (.file (.text m.text)))) hother
  rw [read, read, FileTree.readText, FileTree.readText, hsame]

/-- A file that could not be replaced is read as before, though there may be a draft now. -/
theorem Settled.read_of_failed_write (h : Settled path t) {m : Contents}
    (hfailed : (write path m t).1 = .error e) : read (write path m t).2 path = read t path := by
  rw [write, FileTree.run_bind, h.around] at hfailed ⊢
  simp only [replace_eq] at hfailed ⊢
  cases hw : t.write (draft path) (.text m.text) with
  | error e' => rfl
  | ok t₁ =>
    rw [hw] at hfailed
    dsimp only at hfailed ⊢
    cases hr : t₁.rename (draft path) path with
    | ok t₂ =>
      rw [hr] at hfailed
      cases hfailed
    | error e' => exact h.read_of_draft hw

theorem Settled.read_of_failed_upsert (h : Settled path t)
    (hfailed : (upsert path r t).1 = .error e) : read (upsert path r t).2 path = read t path := by
  cases hblank : Text.isBlankText r.key with
  | true =>
    rw [upsert, hblank]
    rfl
  | false =>
    cases hread : read t path with
    | error e' =>
      rw [upsert_of_unreadable hread hblank]
      exact hread
    | ok m =>
      rw [upsert_of_read hread hblank] at hfailed ⊢
      exact (h.read_of_failed_write hfailed).trans hread

end File

end Ledger

namespace Storage

variable {s : Storage} {root : String} {t t' : FileTree} {d : Database} {r old : Ledger.Record}
  {l : List Ledger.Record} {key : String}

/-- A record that could not be put into the ledger has left its records as they were. -/
theorem records_of_failed_upsert (h : Opened root t d) (hs : s.IsAt root) {e : Ledger.Error}
    (hfailed : s.upsert r t = (.error e, t')) : (s.records t').1 = (s.records t).1 := by
  rw [upsert] at hfailed
  split at hfailed
  · cases hfailed
    rfl
  · cases hb : s.backend with
    | sqlite =>
      rw [hb] at hfailed
      dsimp only at hfailed
      cases hstep : d.upsert r with
      | error e' =>
        rw [change_error (h.read hs) (·.upsert r) hstep] at hfailed
        cases hfailed
        rfl
      | ok d' =>
        -- the database itself can be written, as it was when it was opened
        obtain ⟨t₁, hrun, -⟩ := change_ok (h.read hs) (·.upsert r) hstep
        rw [hrun] at hfailed
        cases hfailed
    | json =>
      rw [hb] at hfailed
      dsimp only at hfailed
      have hsettled : Ledger.File.Settled s.ledger t :=
        hs.ledger ▸ Ledger.File.settled_of_hasDirectory
          (h.directories _ (by simp [DataRoot.directories]))
      have hread := hsettled.read_of_failed_upsert (congrArg Prod.fst hfailed)
      rw [hfailed] at hread
      rw [records, hb]
      change Ledger.File.records t' s.ledger = Ledger.File.records t s.ledger
      rw [Ledger.File.records, Ledger.File.records, hread]

/-- After a record is put into the ledger its records are those before with this one among them. -/
theorem records_of_upsert (h : Opened root t d) (hs : s.IsAt root)
    (hput : s.upsert r t = (.ok (), t')) :
    ∃ l, (s.records t).1 = .ok l ∧ (s.records t').1 = .ok (r.putInto l) := by
  have hblank := not_blank_of_upsert hput
  rw [upsert, hblank, if_neg Bool.false_ne_true] at hput
  cases hb : s.backend with
  | sqlite =>
    rw [hb] at hput
    dsimp only at hput
    cases hstep : d.upsert r with
    | error e =>
      rw [change_error (h.read hs) (·.upsert r) hstep] at hput
      cases hput
    | ok d' =>
      obtain ⟨t₁, hrun, hread⟩ := change_ok (h.read hs) (·.upsert r) hstep
      rw [hrun] at hput
      cases hput
      obtain ⟨table, htable, -, rfl⟩ := Database.of_upsert hstep
      refine ⟨table.list, ?_, ?_⟩
      · rw [records, hb]
        change (s.query Database.records t).1 = _
        rw [query_of_read (h.read hs), Database.records, htable]
        rfl
      · rw [records, hb, ← Ledger.Table.list_put]
        exact congrArg Prod.fst (query_of_read hread Database.records)
  | json =>
    rw [hb] at hput
    dsimp only at hput
    cases hread : Ledger.File.read t s.ledger with
    | error e =>
      rw [Ledger.File.upsert_of_unreadable hread hblank] at hput
      cases hput
    | ok m =>
      rw [Ledger.File.upsert_of_read hread hblank] at hput
      have hm := Ledger.File.keyed_of_read hread
      obtain ⟨t₁, hwrite, -, hreread⟩ :=
        Ledger.File.write_of_write (congrArg Prod.fst hput) (hm.insert r)
      rw [hwrite] at hput
      cases hput
      refine ⟨m.values, ?_, ?_⟩
      · rw [records, hb]
        exact Ledger.File.records_of_read hread
      · rw [records, hb, ← Ledger.Contents.values_insert hm]
        exact Ledger.File.records_of_read hreread

theorem query_eq {α : Type} (s : Storage) (ask : Database → Except Ledger.Error α) (t : FileTree) :
    s.query ask t = ((s.current t).1.bind ask, t) := by
  have hfiles := s.query_files ask t
  rw [query, FileTree.run_bind] at hfiles ⊢
  cases hc : s.current t with
  | mk answer t₁ =>
    rw [hc] at hfiles
    cases answer with
    | ok d =>
      dsimp only at hfiles ⊢
      rw [hfiles]
      rfl
    | error e =>
      dsimp only at hfiles ⊢
      rw [hfiles]
      rfl

theorem records_of_current (hb : s.backend = .sqlite) (t : FileTree) :
    (s.records t).1 = (s.current t).1.bind Database.records := by
  rw [records, hb]
  exact congrArg Prod.fst (s.query_eq Database.records t)

theorem get_of_current (hb : s.backend = .sqlite) (t : FileTree) (key : String) :
    (s.get key t).1 = (s.current t).1.bind (·.get key) := by
  rw [get, hb]
  exact congrArg Prod.fst (s.query_eq (·.get key) t)

inductive Reading (s : Storage) (t : FileTree) : Prop
  | unread (e : Ledger.Error) (records : (s.records t).1 = .error e)
      (get : ∀ key, (s.get key t).1 = .error e)
  | table (table : Ledger.Table) (records : (s.records t).1 = .ok table.list)
      (get : ∀ key, (s.get key t).1 = table.get key)
  | map (m : Ledger.Contents) (keyed : m.Keyed) (records : (s.records t).1 = .ok m.values)
      (get : ∀ key, (s.get key t).1 = match m.find? key with
        | some r => .ok r
        | none => .error (.missing key))

theorem reading (s : Storage) (t : FileTree) : Reading s t := by
  cases hb : s.backend with
  | sqlite =>
    have hrecords := records_of_current hb t
    have hget := get_of_current hb t
    cases hc : (s.current t).1 with
    | error e =>
      simp only [hc] at hrecords hget
      exact .unread e hrecords hget
    | ok d =>
      simp only [hc] at hrecords hget
      cases ht : d.table with
      | error e =>
        refine .unread e (hrecords.trans ?_) fun key => (hget key).trans ?_
        · rw [Except.bind, Database.records, ht]
          rfl
        · rw [Except.bind, Database.get, ht]
          rfl
      | ok table =>
        refine .table table (hrecords.trans ?_) fun key => (hget key).trans ?_
        · rw [Except.bind, Database.records, ht]
          rfl
        · rw [Except.bind, Database.get, ht]
          rfl
  | json =>
    have hrecords : (s.records t).1 = Ledger.File.records t s.ledger := by rw [records, hb]
    have hget (key : String) : (s.get key t).1 = Ledger.File.get t s.ledger key := by rw [get, hb]
    cases hread : Ledger.File.read t s.ledger with
    | error e =>
      refine .unread e (hrecords.trans ?_) fun key => (hget key).trans ?_
      · rw [Ledger.File.records, hread]
        rfl
      · rw [Ledger.File.get, hread]
        rfl
    | ok m =>
      exact .map m (Ledger.File.keyed_of_read hread)
        (hrecords.trans (Ledger.File.records_of_read hread))
        fun key => (hget key).trans (Ledger.File.get_of_read hread key)

/-- Of the records that are listed one is found under a key, if any is there. -/
theorem get_of_records (hl : (s.records t).1 = .ok l) (key : String) :
    ∃ found : Option Ledger.Record,
      (s.get key t).1 = (match found with
        | some x => .ok x
        | none => .error (.missing key)) ∧
      (∀ x, found = some x → x ∈ l ∧ x.key = key) ∧ (found = none → ∀ x ∈ l, x.key ≠ key) := by
  cases s.reading t with
  | unread e hrecords => cases hl.symm.trans hrecords
  | table table hrecords hget =>
    cases hl.symm.trans hrecords
    refine ⟨table.find? key, hget key, fun x hx => ?_, fun hnone x hx => ?_⟩
    · have hlisted := Ledger.Table.mem_list.mpr (List.mem_of_find?_eq_some hx)
      exact ⟨hlisted, by simpa using List.find?_some hx⟩
    · simpa using List.find?_eq_none.mp hnone x (Ledger.Table.mem_list.mp hx)
  | map m keyed hrecords hget =>
    cases hl.symm.trans hrecords
    refine ⟨m.find? key, hget key, fun x hx => ?_, fun hnone x hx hkey => ?_⟩
    · have hkey : x.key = key := keyed _ (KeyMap.mem_entries_iff.mpr hx)
      exact ⟨(Ledger.Contents.mem_values keyed).mpr (hkey ▸ hx), hkey⟩
    · have hfound := (Ledger.Contents.mem_values keyed).mp hx
      rw [hkey, hnone] at hfound
      cases hfound

/-- The record on which a saved one is built is the previous one under its key. -/
theorem isPrevious_of_get
    (hold : (s.get key t).1 = .ok old ∨
      (∃ what, (s.get key t).1 = .error (.notFound what)) ∧ old = { key })
    (hl : (s.records t).1 = .ok l) : Ledger.IsPrevious key l old := by
  obtain ⟨found, hget, hsome, hnone⟩ := get_of_records hl key
  rw [hget] at hold
  cases found with
  | some x =>
    rcases hold with hx | ⟨⟨what, hx⟩, -⟩
    · cases hx
      exact .inl (hsome _ rfl)
    · cases hx
  | none =>
    rcases hold with hx | ⟨-, hnew⟩
    · cases hx
    · exact .inr ⟨hnone rfl, hnew⟩

end Storage

namespace Resolution

variable {m : Type → Type} [Monad m] [LawfulMonad m] {R : Results m} {s : Sources m} {r : Request}
  {report : Report}

/-- A coordinate that is reported has both its fields. -/
theorem fields_of_resolved (h : R.may (resolve s r) (.ok report)) {c : Coordinate}
    (hc : report.coordinate = some c) : ∃ a v, c = ⟨some a, some v⟩ ∧ a ≠ "" ∧ v ≠ "" := by
  rw [resolve, resolveFrom_eq_noted, map_eq_pure_bind] at h
  obtain ⟨⟨answer, visits⟩, hnoted, hfirst⟩ := R.of_bind h
  cases R.of_pure hfirst
  exact (ending_of_resolved hnoted).accords.fields c hc

end Resolution

namespace Command.Session

variable {m : Type → Type} [Monad m] {R : Results m} {catalogs : Catalogs m} {s : Session}
  {root key : String} {t t' t₀ : FileTree} {d : Database}

/-- Where recording a coordinate fails the records are as before; where it does not, the record under
the key has the coordinate and is otherwise the previous one. -/
theorem records_of_record (h : Opened root t d) (hs : s.storage.IsAt root) {c : Coordinate}
    {result : Except Failure Unit} (hrun : R.may ((s.record key c).run.run t) (result, t')) :
    (∃ e, result = .error e) ∧ (s.storage.records t').1 = (s.storage.records t).1 ∨
      result = .ok () ∧ ∃ l old, (s.storage.records t).1 = .ok l ∧ Ledger.IsPrevious key l old ∧
        (s.storage.records t').1 = .ok (Ledger.Record.putInto
          { old with artifactId := c.artifactId, version := c.version } l) := by
  rcases record_cases hrun with ⟨rfl, e, -, -, hfailed⟩ | ⟨old, hold, hput⟩
  · exact .inl ⟨⟨_, hfailed⟩, rfl⟩
  · obtain ⟨rfl, hresult⟩ := of_ask hput
    cases hact : s.storage.upsert
      { old with artifactId := c.artifactId, version := c.version } t with
    | mk answer t₁ =>
      rw [hact] at hresult
      cases answer with
      | error e => exact .inl ⟨⟨_, hresult⟩, Storage.records_of_failed_upsert h hs hact⟩
      | ok u =>
        obtain ⟨l, hl, hafter⟩ := Storage.records_of_upsert h hs hact
        exact .inr ⟨hresult, l, old, hl, Storage.isPrevious_of_get hold hl, hafter⟩

/-- What a resolution leaves in the ledger and of the settings, whatever it comes to. If it ends in a
failure, also one of saving, or finds no coordinate, or is not to save it, the records are those
before. Else the record of the key that was asked for is added or replaced: it has the coordinate,
and for the rest what the previous one had. -/
theorem resolve_frames_ledger [LawfulMonad m] {asked url : Option String}
    {around : DataRoot.Surroundings} (started : start asked around url t₀ = (.ok s, t))
    (quiet : ∀ given forced, R.Quiet (catalogs given forced)) {o : ResolveOptions}
    {result : Except Failure Resolution.Report}
    (done : R.may ((s.resolve catalogs o).run.run t) (result, t')) :
    (s.storage.loadSettings t').1 = (s.storage.loadSettings t).1 ∧
    ((∀ report, result = .ok report → o.save = true → report.coordinate = none) →
      (s.storage.records t').1 = (s.storage.records t).1) ∧
    ∀ report c, result = .ok report → o.save = true → report.coordinate = some c →
      ∃ a v l old, c = ⟨some a, some v⟩ ∧ (s.storage.records t).1 = .ok l ∧
        Ledger.IsPrevious o.key l old ∧
        (s.storage.records t').1 =
          .ok (Ledger.Record.putInto { old with artifactId := some a, version := some v } l) := by
  obtain ⟨root, d, stored, -, hopens, -, rfl⟩ := of_start started
  have h := hopens.opened
  have hs : (ofStored root stored url).storage.IsAt root := Storage.isAt_ofRoot root _
  refine ⟨?_, fun hkept => ?_, fun report c hreport hsave hc => ?_⟩
  · obtain ⟨d', h', hsettings⟩ := spared_resolve h hs quiet done
    rw [h'.loadSettings hs, h.loadSettings hs, Database.loadSettings_congr hsettings]
  · rcases resolve_cases quiet done with
      ⟨rfl, -⟩ | ⟨report, c, saved, hsave, hc, hrecord, hresult, -⟩
    · rfl
    · rcases records_of_record h hs hrecord with ⟨-, hsame⟩ | ⟨rfl, -⟩
      · exact hsame
      · rw [hkept report hresult hsave] at hc
        cases hc
  · rcases resolve_cases quiet done with
      ⟨-, hnone⟩ | ⟨report', c', saved, -, hc', hrecord, hresult, host, hresolved⟩
    · rw [hnone report hreport hsave] at hc
      cases hc
    · rcases records_of_record h hs hrecord with ⟨⟨e, rfl⟩, -⟩ | ⟨rfl, l, old, hl, hold, hafter⟩
      · rw [hreport] at hresult
        cases hresult
      · rw [hreport] at hresult
        cases hresult
        rw [hc] at hc'
        cases hc'
        obtain ⟨a, v, rfl, ha, hv⟩ := Resolution.fields_of_resolved
          (R := R.withState FileTree) ⟨t, t, hresolved⟩ hc
        have hartifact : (Coordinate.mk (some a) (some v)).artifactId = some a := by
          simp [Coordinate.artifactId, setValue, Option.filter, ha]
        have hversion : (Coordinate.mk (some a) (some v)).version = some v := by
          simp [Coordinate.version, setValue, Option.filter, hv]
        rw [hartifact, hversion] at hafter
        exact ⟨a, v, l, old, rfl, hl, hold, hafter⟩

/-- The ledger has a record with a packaging and no version to speak of, and one of another key. -/
theorem resolve_frames_ledger_of_saved :
    let adyen : Ledger.Record := { key := "adyen", version := some "1.0.0" }
    let stripe : Ledger.Record := { key := "stripe", packaging := some "jar", version := some "" }
    let t₀ : FileTree := ⟨[(["k"], .directory), (["k", "data"], .directory),
      (["k", "data", "kpm.db"], .file (.database ⟨some ⟨[stripe, adyen], []⟩, some none⟩))], []⟩
    let s := ofStored "/k" .defaults none
    let t := (start (some "/k") {} none t₀).2
    let catalogs : Catalogs Id := fun _ _ =>
      return .ok ⟨"0.24", [⟨"stripe", none, ⟨some "stripe-plugin", some "8.0.0"⟩⟩]⟩
    let o : ResolveOptions := { key := "stripe", hostVersion := some "0.24.1", save := true }
    let t' := ((s.resolve catalogs o).run.run t).run.2
    start (some "/k") {} none t₀ = (.ok s, t) ∧
      (s.storage.records t).1 = .ok [adyen, stripe] ∧
      (s.storage.records t').1 = .ok [adyen,
        { stripe with artifactId := some "stripe-plugin", version := some "8.0.0" }] := by
  intro adyen stripe t₀ s t catalogs o t'
  have begun : (start (some "/k") {} none t₀).1 = .ok s := by decide +kernel
  have started : start (some "/k") {} none t₀ = (.ok s, t) :=
    Prod.fst_eq_iff.mp begun
  have before : (s.storage.records t).1 = .ok [adyen, stripe] := by decide +kernel
  let found : Coordinate := ⟨some "stripe-plugin", some "8.0.0"⟩
  let report : Resolution.Report := ⟨some found, some .catalog, [.catalog], []⟩
  have resolved : ((s.resolve catalogs o).run.run t).run.1 = .ok report := by decide +kernel
  have done : Results.ofId.may ((s.resolve catalogs o).run.run t) (.ok report, t') :=
    (Prod.fst_eq_iff.mp resolved).symm
  obtain ⟨a, v, l, old, hc, hl, hold, hafter⟩ :=
    (resolve_frames_ledger started (fun _ _ => Results.quiet_pure _ _) done).2.2 report found rfl
      rfl rfl
  rw [before] at hl
  cases hl
  obtain ⟨rfl, rfl⟩ : a = "stripe-plugin" ∧ v = "8.0.0" := by simpa [found, eq_comm] using hc
  refine ⟨started, before, hafter.trans ?_⟩
  rcases hold with ⟨hmem, hkey⟩ | ⟨hnone, -⟩
  · rcases List.mem_cons.mp hmem with rfl | hmem
    · simp [adyen, o] at hkey
    · rw [List.mem_singleton.mp hmem]
      rfl
  · exact absurd rfl (hnone stripe (by simp))

end Command.Session

end PluginResolution
