import PluginResolution.Proofs.DirectoryResolution
import PluginResolution.Proofs.SavedResolution

namespace PluginResolution

namespace Command

inductive Cause where
  /-- There is no data root, or a directory of it cannot be made. -/
  | dataPath
  | database
  | storage
  | missingRecord
  | blankKey
  | repeatedValue
  /-- No host version is given, or a blank one. -/
  | noHostVersion
  | hostVersion
  | catalogUrl
  | catalog
  | unresolved
  | settings
  deriving DecidableEq, Repr

def Cause.exitCode : Cause → Nat
  | .dataPath => 74
  | .database => 73
  | .storage => 73
  | .missingRecord => 1
  | .blankKey => 2
  | .repeatedValue => 2
  | .noHostVersion => 2
  | .hostVersion => 2
  | .catalogUrl => 78
  | .catalog => 69
  | .unresolved => 3
  | .settings => 78

end Command

open Command (Cause Failure)

def Ledger.Error.IsOfStorage (e : Ledger.Error) : Prop :=
  (∃ detail, e = .storage detail) ∨ ∃ detail, e = .serialization detail

theorem exitCode_of_storage {e : Ledger.Error} (h : e.IsOfStorage) :
    (Failure.ofLedger e).exitCode = Cause.storage.exitCode := by
  rcases h with ⟨detail, rfl⟩ | ⟨detail, rfl⟩
  · rfl
  · rfl

namespace Ledger.File

variable {path : String} {t : FileTree} {e : Error}

theorem read_error (h : read t path = .error e) : e.IsOfStorage := by
  rw [read] at h
  split at h
  · cases h
  · cases h
    exact .inl ⟨_, rfl⟩
  · split at h
    · cases h
    · cases h
      exact .inr ⟨_, rfl⟩

theorem attempt_error {act : FileTree.Action Unit} (h : (attempt path act t).1 = .error e) :
    e.IsOfStorage := by
  rw [attempt] at h
  split at h
  · cases h
  · cases h
    exact .inl ⟨_, rfl⟩

theorem write_error {m : Contents} (h : (write path m t).1 = .error e) : e.IsOfStorage := by
  rw [write, FileTree.run_bind] at h
  cases hs : surround path t with
  | mk answer t₁ =>
    rw [hs] at h
    cases answer with
    | error e' =>
      cases h
      rw [surround_eq] at hs
      split at hs
      · exact attempt_error (congrArg Prod.fst hs)
      · cases hs
    | ok =>
      simp only [replace_eq] at h
      split at h
      · cases h
        exact .inl ⟨_, rfl⟩
      · split at h
        · cases h
          exact .inl ⟨_, rfl⟩
        · cases h

end Ledger.File

namespace Database

variable {d : Database} {e : Ledger.Error} {key : String} {r : Ledger.Record}

theorem identifiers_of_table {table : Ledger.Table} (h : d.table = .ok table) :
    d.identifiers = some table := by
  rw [Database.table] at h
  split at h
  · rename_i hi
    cases h
    exact hi
  · cases h

/-- A row is not removed if there is no table, or no such row. -/
theorem remove_error (h : d.remove key = .error e) : d.table = .error e ∨
    ∃ table, d.table = .ok table ∧ e = .missing key ∧ ∀ x ∈ table.list, x.key ≠ key := by
  cases ht : d.table with
  | error e' =>
    rw [remove, ht] at h
    cases h
    exact .inl rfl
  | ok table =>
    rw [remove_of_table ht, Ledger.Table.remove] at h
    by_cases hany : table.rows.any (·.key = key) = true
    · rw [if_pos hany] at h
      cases h
    · rw [if_neg hany] at h
      cases h
      refine .inr ⟨table, rfl, rfl, fun x hx hkey => hany (List.any_eq_true.mpr ⟨x, ?_, ?_⟩)⟩
      · exact Ledger.Table.mem_list.mp hx
      · simpa using hkey

/-- A record with a key is not put into the table if there is none, or if it repeats a value. -/
theorem upsert_error (hblank : Text.isBlankText r.key = false) (h : d.upsert r = .error e) :
    d.identifiers = none ∧ d.table = .error e ∨ ∃ table field, d.identifiers = some table ∧
      table.repeated? r = some field ∧ e = .repeated field := by
  cases hi : d.identifiers with
  | none =>
    have ht : d.table = .error (missingTable .identifiers) := by rw [table, hi]
    rw [upsert, hblank, ht] at h
    cases h
    exact .inl ⟨rfl, ht⟩
  | some table =>
    have ht : d.table = .ok table := by rw [Database.table, hi]
    rw [upsert_of_table ht hblank, Ledger.Table.upsert, hblank, if_neg Bool.false_ne_true] at h
    cases hfield : table.repeated? r with
    | some field =>
      rw [hfield] at h
      cases h
      exact .inr ⟨table, field, rfl, hfield, rfl⟩
    | none =>
      rw [hfield] at h
      cases h

end Database

namespace Storage

variable {s : Storage} {t : FileTree} {e : Ledger.Error} {key : String} {r : Ledger.Record}

theorem current_error (h : (s.current t).1 = .error e) : e.IsOfStorage := by
  rw [current] at h
  split at h
  · split at h
    · cases h
    · cases h
      exact .inl ⟨_, rfl⟩
  · cases h
    exact .inl ⟨_, rfl⟩

theorem query_error {α : Type} {ask : Database → Except Ledger.Error α}
    (h : (s.query ask t).1 = .error e) :
    e.IsOfStorage ∨ ∃ d, (s.current t).1 = .ok d ∧ ask d = .error e := by
  rw [query_eq] at h
  cases hc : (s.current t).1 with
  | error e' =>
    rw [hc] at h
    cases h
    exact .inl (current_error hc)
  | ok d =>
    rw [hc] at h
    exact .inr ⟨d, rfl, h⟩

/-- A change fails because of what the database holds, or its file fails. -/
theorem change_fault {step : Database → Except Ledger.Error Database}
    (h : (s.change step t).1 = .error e) :
    (s.current t).1 = .error e ∨ ∃ d, (s.current t).1 = .ok d ∧
      (step d = .error e ∨ e.IsOfStorage ∧ ∃ d', step d = .ok d') := by
  rw [change, FileTree.run_bind] at h
  cases hc : s.current t with
  | mk answer t₁ =>
    rw [hc] at h
    cases answer with
    | error e' =>
      cases h
      exact .inl rfl
    | ok d =>
      refine .inr ⟨d, rfl, ?_⟩
      dsimp only at h
      cases hstep : step d with
      | error e' =>
        rw [hstep] at h
        cases h
        exact .inl rfl
      | ok d' =>
        rw [hstep] at h
        dsimp only at h
        split at h
        · cases h
        · cases h
          exact .inr ⟨.inl ⟨_, rfl⟩, d', rfl⟩

theorem table_error {d : Database} (h : d.table = .error e) : e.IsOfStorage := by
  rw [Database.table] at h
  split at h
  · cases h
  · cases h
    exact .inl ⟨_, rfl⟩

/-- Only the storage keeps the records from being listed. -/
theorem records_error (h : (s.records t).1 = .error e) : e.IsOfStorage := by
  cases hb : s.backend with
  | sqlite =>
    rw [records, hb] at h
    rcases query_error h with hstorage | ⟨d, -, hd⟩
    · exact hstorage
    · rw [Database.records] at hd
      cases ht : d.table with
      | error e' =>
        rw [ht] at hd
        cases hd
        exact table_error ht
      | ok table =>
        rw [ht] at hd
        cases hd
  | json =>
    rw [records, hb] at h
    change Ledger.File.records t s.ledger = .error e at h
    rw [Ledger.File.records] at h
    cases hread : Ledger.File.read t s.ledger with
    | error e' =>
      rw [hread] at h
      cases h
      exact Ledger.File.read_error hread
    | ok m =>
      rw [hread] at h
      cases h

theorem loadSettings_error (h : (s.loadSettings t).1 = .error e) : e.IsOfStorage := by
  rcases query_error h with hstorage | ⟨d, -, hd⟩
  · exact hstorage
  · rw [Database.loadSettings] at hd
    split at hd
    · cases hd
      exact .inl ⟨_, rfl⟩
    · cases hd
    · split at hd
      · cases hd
      · cases hd
        exact .inr ⟨_, rfl⟩

theorem saveSettings_error {settings : Settings} (h : (s.saveSettings settings t).1 = .error e) :
    e.IsOfStorage := by
  rcases change_fault h with hc | ⟨d, -, hd | ⟨hstorage, -⟩⟩
  · exact current_error hc
  · rw [Database.saveSettings, Database.saveSettingsText] at hd
    split at hd
    · cases hd
      exact .inl ⟨_, rfl⟩
    · cases hd
  · exact hstorage

def lacks (s : Storage) (key : String) (t : FileTree) : Bool :=
  match (s.records t).1 with
  | .ok l => l.all (·.key ≠ key)
  | .error _ => false

def lookupCause (s : Storage) (key : String) (t : FileTree) : Cause :=
  if s.lacks key t then .missingRecord else .storage

theorem lookupCause_of_lacking {l : List Ledger.Record} (hl : (s.records t).1 = .ok l)
    (hkey : ∀ x ∈ l, x.key ≠ key) : s.lookupCause key t = .missingRecord := by
  have hlacks : s.lacks key t = true := by
    rw [lacks, hl]
    exact List.all_eq_true.mpr fun x hx => by simpa using hkey x hx
  rw [lookupCause, if_pos hlacks]

theorem lookupCause_of_unread (h : (s.records t).1 = .error e) :
    s.lookupCause key t = .storage := by
  have hlacks : s.lacks key t = false := by rw [lacks, h]
  rw [lookupCause, if_neg (by simp [hlacks])]

theorem lookupCause_of_found {l : List Ledger.Record} (hl : (s.records t).1 = .ok l)
    {x : Ledger.Record} (hx : x ∈ l) (hkey : x.key = key) : s.lookupCause key t = .storage := by
  have hlacks : s.lacks key t = false := by
    rw [lacks, hl]
    exact List.all_eq_false.mpr ⟨x, hx, by simpa using hkey⟩
  rw [lookupCause, if_neg (by simp [hlacks])]

/-- A ledger that cannot be listed fails for any key, and for the same reason. -/
theorem get_of_unread (h : (s.records t).1 = .error e) (key : String) :
    (s.get key t).1 = .error e := by
  cases s.reading t with
  | unread e' hrecords hget =>
    cases h.symm.trans hrecords
    exact hget key
  | table table hrecords => cases h.symm.trans hrecords
  | map m keyed hrecords => cases h.symm.trans hrecords

/-- What is wrong when a record is not found. -/
theorem get_error (h : (s.get key t).1 = .error e) :
    (e.IsOfStorage ∧ s.lookupCause key t = .storage) ∨
      e = .missing key ∧ s.lookupCause key t = .missingRecord := by
  cases hl : (s.records t).1 with
  | error e' =>
    rw [get_of_unread hl] at h
    cases h
    exact .inl ⟨records_error hl, lookupCause_of_unread hl⟩
  | ok l =>
    obtain ⟨found, hget, -, hnone⟩ := get_of_records hl key
    rw [hget] at h
    cases found with
    | some x => cases h
    | none =>
      cases h
      exact .inr ⟨rfl, lookupCause_of_lacking hl (hnone rfl)⟩

theorem exitCode_of_get (h : (s.get key t).1 = .error e) :
    (Failure.ofLedger e).exitCode = (s.lookupCause key t).exitCode := by
  rcases get_error h with ⟨hstorage, hcause⟩ | ⟨rfl, hcause⟩
  · rw [hcause]
    exact exitCode_of_storage hstorage
  · rw [hcause]
    rfl

theorem records_of_table {d : Database} (hb : s.backend = .sqlite)
    (hc : (s.current t).1 = .ok d) : (s.records t).1 = d.table.map (·.list) := by
  rw [records_of_current hb, hc, Except.bind, Database.records]
  cases d.table with
  | error e' => rfl
  | ok table => rfl

/-- A row that is to be removed is looked for in the table that is listed. -/
theorem exitCode_of_remove_row (hb : s.backend = .sqlite)
    (h : (s.change (·.remove key) t).1 = .error e) :
    (Failure.ofLedger e).exitCode = (s.lookupCause key t).exitCode := by
  rcases change_fault h with hc | ⟨d, hc, hstep⟩
  · have hrecords := records_of_current hb t
    rw [hc] at hrecords
    rw [exitCode_of_storage (current_error hc), lookupCause_of_unread hrecords]
  · have hrecords := records_of_table hb hc
    rcases hstep with hstep | ⟨hstorage, d', hstep⟩
    · rcases Database.remove_error hstep with ht | ⟨table, ht, rfl, hnone⟩
      · rw [ht] at hrecords
        rw [exitCode_of_storage (table_error ht), lookupCause_of_unread hrecords]
      · rw [ht] at hrecords
        rw [lookupCause_of_lacking hrecords hnone]
        rfl
    · -- the row was there, and the database could not be written
      obtain ⟨table, ht, ⟨x, hx, hkey⟩, -⟩ := Database.of_remove hstep
      rw [ht] at hrecords
      have hlisted := Ledger.Table.mem_list.mpr hx
      rw [exitCode_of_storage hstorage, lookupCause_of_found hrecords hlisted hkey]

/-- So is a record in the file. -/
theorem exitCode_of_remove_entry (hb : s.backend = .json)
    (h : (Ledger.File.remove s.ledger key t).1 = .error e) :
    (Failure.ofLedger e).exitCode = (s.lookupCause key t).exitCode := by
  have hrecords : (s.records t).1 = Ledger.File.records t s.ledger := by rw [records, hb]
  cases hread : Ledger.File.read t s.ledger with
  | error e' =>
    have hunread : (s.records t).1 = .error e' := by
      rw [hrecords, Ledger.File.records, hread]
      rfl
    rw [Ledger.File.remove_of_unreadable hread] at h
    cases h
    rw [lookupCause_of_unread hunread]
    exact exitCode_of_storage (Ledger.File.read_error hread)
  | ok m =>
    rw [Ledger.File.records_of_read hread] at hrecords
    have hm := Ledger.File.keyed_of_read hread
    cases hf : m.find? key with
    | none =>
      have hnone : ∀ x ∈ m.values, x.key ≠ key := by
        rintro x hx rfl
        rw [(Ledger.Contents.mem_values hm).mp hx] at hf
        cases hf
      rw [Ledger.File.remove_of_missing hread hf] at h
      cases h
      rw [lookupCause_of_lacking hrecords hnone]
      rfl
    | some x =>
      have hkey : x.key = key := hm _ (KeyMap.mem_entries_iff.mpr hf)
      have hx : x ∈ m.values := (Ledger.Contents.mem_values hm).mpr (hkey.symm ▸ hf)
      rw [Ledger.File.remove_of_found hread hf] at h
      rw [lookupCause_of_found hrecords hx hkey]
      exact exitCode_of_storage (Ledger.File.write_error h)

theorem exitCode_of_remove (h : (s.remove key t).1 = .error e) :
    (Failure.ofLedger e).exitCode = (s.lookupCause key t).exitCode := by
  cases hb : s.backend with
  | sqlite =>
    rw [remove, hb] at h
    exact exitCode_of_remove_row hb h
  | json =>
    rw [remove, hb] at h
    exact exitCode_of_remove_entry hb h

def repeats (s : Storage) (r : Ledger.Record) (t : FileTree) : Bool :=
  match s.backend, (s.current t).1 with
  | .sqlite, .ok d => d.identifiers.any fun table => (table.repeated? r).isSome
  | _, _ => false

def putCause (s : Storage) (r : Ledger.Record) (t : FileTree) : Cause :=
  if Text.isBlankText r.key then .blankKey
  else if s.repeats r t then .repeatedValue else .storage

theorem exitCode_of_upsert_row (hb : s.backend = .sqlite)
    (hblank : Text.isBlankText r.key = false) (h : (s.change (·.upsert r) t).1 = .error e) :
    (Failure.ofLedger e).exitCode = (s.putCause r t).exitCode := by
  rw [putCause, hblank, if_neg Bool.false_ne_true]
  rcases change_fault h with hc | ⟨d, hc, hstep⟩
  · have hrepeats : s.repeats r t = false := by rw [repeats, hb, hc]
    rw [hrepeats, if_neg Bool.false_ne_true]
    exact exitCode_of_storage (current_error hc)
  · have hrepeats : s.repeats r t =
        d.identifiers.any fun table => (table.repeated? r).isSome := by rw [repeats, hb, hc]
    rw [hrepeats]
    rcases hstep with hstep | ⟨hstorage, d', hstep⟩
    · rcases Database.upsert_error hblank hstep with ⟨hi, ht⟩ | ⟨table, field, hi, hfield, rfl⟩
      · rw [hi, Option.any_none, if_neg Bool.false_ne_true]
        exact exitCode_of_storage (table_error ht)
      · rw [hi, Option.any_some, hfield]
        rfl
    · obtain ⟨table, ht, hfield, -⟩ := Database.of_upsert hstep
      rw [Database.identifiers_of_table ht, Option.any_some, hfield]
      exact exitCode_of_storage hstorage

theorem exitCode_of_upsert (h : (s.upsert r t).1 = .error e) :
    (Failure.ofLedger e).exitCode = (s.putCause r t).exitCode := by
  rw [upsert] at h
  cases hblank : Text.isBlankText r.key with
  | true =>
    rw [hblank] at h
    cases h
    rw [putCause, hblank]
    rfl
  | false =>
    rw [hblank, if_neg Bool.false_ne_true] at h
    cases hb : s.backend with
    | sqlite =>
      rw [hb] at h
      exact exitCode_of_upsert_row hb hblank h
    | json =>
      rw [hb] at h
      dsimp only at h
      have hrepeats : s.repeats r t = false := by rw [repeats, hb]
      rw [putCause, hblank, if_neg Bool.false_ne_true, hrepeats, if_neg Bool.false_ne_true]
      cases hread : Ledger.File.read t s.ledger with
      | error e' =>
        rw [Ledger.File.upsert_of_unreadable hread hblank] at h
        cases h
        exact exitCode_of_storage (Ledger.File.read_error hread)
      | ok m =>
        rw [Ledger.File.upsert_of_read hread hblank] at h
        exact exitCode_of_storage (Ledger.File.write_error h)

end Storage

def CatalogError.IsOfDirectory (e : CatalogError) : Prop :=
  (∃ detail, e = .unavailable detail) ∨ ∃ detail, e = .malformed detail

theorem CatalogError.exitCode_of_directory {e : CatalogError} (h : e.IsOfDirectory) :
    (Failure.ofCatalog e).exitCode = Cause.catalog.exitCode := by
  rcases h with ⟨detail, rfl⟩ | ⟨detail, rfl⟩
  · rfl
  · rfl

namespace Fetch

def Access.isUsable (a : Access) : Bool :=
  match a.parsed with
  | .error _ => false
  | .ok u => if u.scheme = "file" then u.filePath?.isSome else isRequested u

variable {m : Type → Type} [Monad m] {R : Results m} {w : World m} {a : Access}
  {answer : Except PluginDirectory.Error String}

theorem result_error {outcome : Outcome} {url : String} {e : PluginDirectory.Error}
    (h : outcome.result url = .error e) : e.toCatalogError.IsOfDirectory := by
  cases outcome with
  | answered status body =>
    rw [Outcome.result.eq_def] at h
    dsimp only at h
    split at h
    · split at h
      · cases h
      · cases h
        exact .inl ⟨_, rfl⟩
    · cases h
      exact .inl ⟨_, rfl⟩
  | lost detail =>
    cases h
    exact .inl ⟨_, rfl⟩

theorem attempts_error {request : m Outcome} {wait : Nat → m Unit} {url : String}
    {pause : Nat → Nat} {limit : Nat} {last : Except PluginDirectory.Error String}
    {numbers : List Nat} {e : PluginDirectory.Error}
    (hlast : ∀ e, last = .error e → e.toCatalogError.IsOfDirectory)
    (h : R.may (attempts request wait url pause limit last numbers) (.error e)) :
    e.toCatalogError.IsOfDirectory := by
  -- on the requests that are left
  induction numbers generalizing last with
  | nil => exact hlast e (R.of_pure h).symm
  | cons number rest ih =>
    obtain ⟨_, -, hasked⟩ := R.of_bind h
    obtain ⟨outcome, -, hrest⟩ := R.of_bind hasked
    split at hrest
    · exact ih (fun e he => result_error he) hrest
    · exact result_error (R.of_pure hrest).symm

theorem retry_error {request : m Outcome} {wait : Nat → m Unit} {url : String}
    {pause : Nat → Nat} {limit : Nat} {e : PluginDirectory.Error}
    (h : R.may (retry request wait url pause limit) (.error e)) :
    e.toCatalogError.IsOfDirectory := by
  refine attempts_error (fun e he => ?_) h
  cases he
  exact .inr ⟨_, rfl⟩

/-- What a usable URL leads to may be missing or broken; an unusable one is never followed. -/
theorem fetch_answer (h : R.may (a.fetch w) answer) :
    (a.isUsable = true → ∀ e, answer = .error e → e.toCatalogError.IsOfDirectory) ∧
      (a.isUsable = false → ∃ e detail, answer = .error e ∧
        e.toCatalogError = .configuration detail) := by
  rw [Access.fetch] at h
  rw [Access.isUsable]
  cases hp : a.parsed with
  | error e =>
    rw [hp] at h
    have hanswer := R.of_pure h
    refine ⟨fun husable => (by cases husable), fun _ => ⟨e, e.message, hanswer, ?_⟩⟩
    rw [Access.parsed] at hp
    split at hp
    · cases hp
    · cases hp
      rfl
  | ok u =>
    rw [hp] at h
    dsimp only at h ⊢
    rw [fetch] at h
    by_cases hfile : u.scheme = "file"
    · rw [if_pos hfile] at h ⊢
      rw [readLocal] at h
      cases hpath : u.filePath? with
      | none =>
        rw [hpath] at h
        exact ⟨fun husable => (by cases husable), fun _ => ⟨_, _, R.of_pure h, rfl⟩⟩
      | some path =>
        rw [hpath] at h
        refine ⟨fun _ e he => ?_, fun hunusable => by cases hunusable⟩
        subst he
        obtain ⟨text, -, hrest⟩ := R.of_bind h
        cases text with
        | ok s => cases R.of_pure hrest
        | error fault =>
          cases R.of_pure hrest
          exact .inl ⟨_, rfl⟩
    · rw [if_neg hfile] at h ⊢
      cases hrequested : isRequested u with
      | true =>
        rw [hrequested, if_pos rfl] at h
        refine ⟨fun _ e he => ?_, fun hunusable => by cases hunusable⟩
        subst he
        exact retry_error h
      | false =>
        rw [hrequested, if_neg Bool.false_ne_true] at h
        exact ⟨fun husable => (by cases husable), fun _ => ⟨_, _, R.of_pure h, rfl⟩⟩

def Access.cause (a : Access) (given : String) : Cause :=
  if (HostVersion.parse given).isOk then
    if a.isUsable then .catalog else .catalogUrl
  else .hostVersion

end Fetch

theorem PluginDirectory.parse_error {text : String} {e : Error} (h : parse text = .error e) :
    e.toCatalogError.IsOfDirectory := by
  rw [parse] at h
  split at h
  · cases h
    exact .inr ⟨_, rfl⟩
  · rw [ofTree] at h
    split at h
    · cases h
      exact .inr ⟨_, rfl⟩
    · split at h
      · cases h
      · cases h
        exact .inr ⟨_, rfl⟩

namespace Catalog.Client

variable {m : Type → Type} [Monad m] {R : Results m} {a : Fetch.Access} {given : String}
  {forced : Bool} {fetched : m (Except PluginDirectory.Error String)} {e : CatalogError}
  {client : Client}

/-- A client that has fetched nothing yet fails before it fetches, or with its fetch. -/
theorem exitCode_of_ask {w : Fetch.World m}
    (h : R.may ((ofAccess a).ask given forced (a.fetch w)) (.error e, client)) :
    (Failure.ofCatalog e).exitCode = (a.cause given).exitCode := by
  rw [ask, enter] at h
  rw [Fetch.Access.cause]
  cases hhost : HostVersion.parse given with
  | error invalid =>
    rw [hhost] at h
    cases R.of_pure h
    rfl
  | ok host =>
    have hfresh : (if forced then none else (ofAccess a).cache.fresh? (ofAccess a).now host.line) =
        none := by
      cases forced <;> simp [ofAccess, Cache.fresh?, Cache.find?]
    rw [hhost] at h
    simp only [hfresh] at h
    cases hparsed : a.parsed with
    | error wrong =>
      -- nothing is fetched, since it is known from the start that the URL is none
      have hresume : ((ofAccess a).join 0 host forced).step (.resume 0) =
          some (.ended (.error wrong.toCatalogError),
            ((ofAccess a).join 0 host forced).leave ⟨0, host, forced, .admitted 0⟩) := by
        simp [ofAccess, join, step, find?, resume, Client.fetch, Cache.newer?, Cache.find?,
          Cache.count, hparsed]
      have hunusable : a.isUsable = false := by rw [Fetch.Access.isUsable, hparsed]
      rw [hresume] at h
      cases R.of_pure h
      rw [Fetch.Access.parsed] at hparsed
      split at hparsed
      · cases hparsed
      · cases hparsed
        simp only [hunusable]
        rfl
    | ok u =>
      have hresume : ((ofAccess a).join 0 host forced).step (.resume 0) =
          some (.fetches, ((ofAccess a).join 0 host forced).setPhase 0 .fetching) := by
        simp [ofAccess, join, step, find?, resume, Client.fetch, Cache.newer?, Cache.find?,
          Cache.count, hparsed]
      rw [hresume] at h
      obtain ⟨answer, hanswer, hrest⟩ := R.of_bind h
      obtain ⟨husable, hunusable⟩ := Fetch.fetch_answer hanswer
      have hok : (Except.ok host : Except HostVersion.Invalid HostVersion).isOk = true := rfl
      rw [if_pos hok]
      cases hd : answer.bind PluginDirectory.parse with
      | ok d =>
        have hstep : ∃ s', (((ofAccess a).join 0 host forced).setPhase 0 .fetching).step
            (.answer 0 answer) = some (.ended (.ok (PluginDirectory.catalogFor d host)), s') := by
          simp [ofAccess, join, step, find?, setPhase, finish, hd]
        obtain ⟨s', hstep⟩ := hstep
        rw [hstep] at hrest
        cases R.of_pure hrest
      | error wrong =>
        have hstep : ∃ s', (((ofAccess a).join 0 host forced).setPhase 0 .fetching).step
            (.answer 0 answer) = some (.ended (.error wrong.toCatalogError), s') := by
          simp [ofAccess, join, step, find?, setPhase, finish, hd]
        obtain ⟨s', hstep⟩ := hstep
        rw [hstep] at hrest
        cases R.of_pure hrest
        cases hu : a.isUsable with
        | false =>
          obtain ⟨_, detail, rfl, hconfiguration⟩ := hunusable hu
          cases hd
          rw [hconfiguration]
          rfl
        | true =>
          rw [if_pos rfl]
          apply CatalogError.exitCode_of_directory
          cases answer with
          | error _ =>
            cases hd
            exact husable hu wrong rfl
          | ok text => exact PluginDirectory.parse_error hd

end Catalog.Client

end PluginResolution
