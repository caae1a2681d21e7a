import PluginResolution.Command.Run
import PluginResolution.Proofs.OpenedRoot
import PluginResolution.Proofs.UntouchedFiles

namespace PluginResolution

open FileTree (Spares)

namespace Database

variable {d d' : Database}

/-- A record is put into the table, and nothing else is changed. -/
theorem of_upsert {r : Ledger.Record} (h : d.upsert r = .ok d') :
    ∃ table, d.table = .ok table ∧ table.repeated? r = none ∧
      d' = { d with identifiers := some (Ledger.Table.put table r) } := by
  cases hblank : Text.isBlankText r.key with
  | true =>
    rw [upsert, if_pos hblank] at h
    cases h
  | false =>
    cases ht : d.table with
    | error e =>
      rw [upsert, hblank, ht] at h
      cases h
    | ok table =>
      rw [upsert_of_table ht hblank, Ledger.Table.upsert, hblank, if_neg Bool.false_ne_true] at h
      cases hfield : table.repeated? r with
      | some field =>
        rw [hfield] at h
        cases h
      | none =>
        rw [hfield] at h
        cases h
        exact ⟨table, rfl, hfield, rfl⟩

/-- So a record that is removed has been there. -/
theorem of_remove {key : String} (h : d.remove key = .ok d') :
    ∃ table, d.table = .ok table ∧ (∃ x ∈ table.rows, x.key = key) ∧
      d' = { d with identifiers := some ⟨table.rows.filter (·.key ≠ key), table.distinct⟩ } := by
  cases ht : d.table with
  | error e =>
    rw [remove, ht] at h
    cases h
  | ok table =>
    rw [remove_of_table ht, Ledger.Table.remove] at h
    split at h
    · rename_i hany
      obtain ⟨x, hx, hkey⟩ := List.any_eq_true.mp hany
      cases h
      exact ⟨table, rfl, ⟨x, hx, by simpa using hkey⟩, rfl⟩
    · cases h

theorem save_of_hasTables (h : d.HasTables) (s : Settings) :
    ∃ d', d.saveSettings s = .ok d' ∧ d'.loadSettings = .ok s ∧ d'.HasTables := by
  obtain ⟨stored, hstored⟩ := Option.isSome_iff_exists.mp h.settings
  have hsaved : d.saveSettings s = .ok { d with settings := some (some s.toJson.compact) } := by
    rw [saveSettings, saveSettingsText, hstored]
  exact ⟨_, hsaved, loadSettings_of_save hsaved, h.identifiers, rfl⟩

end Database

namespace Storage

/-- What is asked of a storage leaves the files alone. -/
theorem query_files {α : Type} (s : Storage) (ask : Database → Except Ledger.Error α)
    (t : FileTree) : (s.query ask t).2 = t := by
  rw [query, FileTree.run_bind, current]
  cases t.read s.database with
  | error e => rfl
  | ok c =>
    dsimp only
    cases databaseOf c <;> rfl

theorem records_files (s : Storage) (t : FileTree) : (s.records t).2 = t := by
  rw [records]
  cases s.backend with
  | sqlite => exact s.query_files Database.records t
  | json => rfl

theorem get_files (s : Storage) (key : String) (t : FileTree) : (s.get key t).2 = t := by
  rw [get]
  cases s.backend with
  | sqlite => exact s.query_files (·.get key) t
  | json => rfl

end Storage

namespace DataRoot.Opened

variable {root : String} {s : Storage} {t : FileTree} {d : Database}

/-- A change of the database to one that has its tables is made. -/
theorem change (h : Opened root t d) (hs : s.IsAt root)
    (step : Database → Except Ledger.Error Database) {d' : Database} (hstep : step d = .ok d')
    (htables : d'.HasTables) : ∃ t', s.change step t = (.ok (), t') ∧ Opened root t' d' := by
  have hread := h.read hs
  obtain ⟨t', hw⟩ := FileTree.write_of_read hread (.database d')
  refine ⟨t', ?_, opened_of_write h.directories (hs.database ▸ hw) htables⟩
  rw [Storage.change, FileTree.run_bind, Storage.current_of_read hread]
  simp only [hstep, hw]

/-- After a change of the ledger's table, made or not, the settings are as before. -/
theorem change_ledger (h : Opened root t d) (hs : s.IsAt root)
    (step : Database → Except Ledger.Error Database)
    (hkeeps : ∀ d', step d = .ok d' → ∃ table, d' = { d with identifiers := some table }) :
    ∃ d', Opened root (s.change step t).2 d' ∧ d'.settings = d.settings := by
  cases hstep : step d with
  | error e =>
    rw [Storage.change_error (h.read hs) step hstep]
    exact ⟨d, h, rfl⟩
  | ok d' =>
    obtain ⟨table, rfl⟩ := hkeeps d' hstep
    obtain ⟨t', hrun, hopened⟩ := h.change hs step hstep ⟨rfl, h.tables.settings⟩
    rw [hrun]
    exact ⟨_, hopened, rfl⟩

/-- The ledger's file and its draft are other files than the database. -/
theorem of_spares_ledger {t' : FileTree} (h : Opened root t d) (hs : s.IsAt root)
    (hspares : ∀ parts, t.partsOf s.ledger ≠ parts →
      t.partsOf (Ledger.File.draft s.ledger) ≠ parts → Spares parts t t') : Opened root t' d := by
  obtain ⟨hledger, hdraft⟩ := partsOf_ledger_ne t root
  rw [hs.ledger] at hspares
  exact h.of_spares (hspares _ hledger hdraft)

/-- A record is put into the ledger, or is not. The settings stay. -/
theorem upsert (h : Opened root t d) (hs : s.IsAt root) (r : Ledger.Record) :
    ∃ d', Opened root (s.upsert r t).2 d' ∧ d'.settings = d.settings := by
  rw [Storage.upsert]
  split
  · exact ⟨d, h, rfl⟩
  · cases hb : s.backend with
    | sqlite =>
      refine h.change_ledger hs (·.upsert r) fun d' hstep => ?_
      obtain ⟨table, -, -, hd'⟩ := Database.of_upsert hstep
      exact ⟨_, hd'⟩
    | json =>
      exact ⟨d, h.of_spares_ledger hs fun parts hp hd => Ledger.File.spares_upsert hp hd r, rfl⟩

theorem remove (h : Opened root t d) (hs : s.IsAt root) (key : String) :
    ∃ d', Opened root (s.remove key t).2 d' ∧ d'.settings = d.settings := by
  rw [Storage.remove]
  cases hb : s.backend with
  | sqlite =>
    refine h.change_ledger hs (·.remove key) fun d' hstep => ?_
    obtain ⟨table, -, -, hd'⟩ := Database.of_remove hstep
    exact ⟨_, hd'⟩
  | json =>
    exact ⟨d, h.of_spares_ledger hs fun parts hp hd => Ledger.File.spares_remove hp hd key, rfl⟩

/-- Settings are saved, and are the stored ones then. -/
theorem saveSettings (h : Opened root t d) (hs : s.IsAt root) (settings : Settings) :
    ∃ t' d', s.saveSettings settings t = (.ok (), t') ∧ Opened root t' d' ∧
      d'.loadSettings = .ok settings := by
  obtain ⟨d', hsaved, hload, htables⟩ := Database.save_of_hasTables h.tables settings
  obtain ⟨t', hrun, hopened⟩ := h.change hs (·.saveSettings settings) hsaved htables
  exact ⟨t', d', hrun, hopened, hload⟩

end DataRoot.Opened

namespace Command

section Work

variable {m : Type → Type} [Monad m] {R : Results m} {α β : Type} {t t' t'' : FileTree}

theorem of_work_bind {x : Work m α} {f : α → Work m β} {result : Except Failure β}
    (h : R.may ((x >>= f).run.run t) (result, t'')) :
    (∃ e, R.may (x.run.run t) (.error e, t'') ∧ result = .error e) ∨
      ∃ a t', R.may (x.run.run t) (.ok a, t') ∧ R.may ((f a).run.run t') (result, t'') := by
  obtain ⟨answer, t', hx, hf⟩ := Results.of_run_bind h
  cases answer with
  | error e =>
    obtain ⟨rfl, rfl⟩ := Results.of_run_pure hf
    exact .inl ⟨e, hx, rfl⟩
  | ok a => exact .inr ⟨a, t', hx, hf⟩

theorem of_work_pure {a : α} {result : Except Failure α}
    (h : R.may ((pure a : Work m α).run.run t) (result, t')) : result = .ok a ∧ t' = t :=
  Results.of_run_pure h

theorem of_work_throw {e : Failure} {result : Except Failure α}
    (h : R.may ((throw e : Work m α).run.run t) (result, t')) : result = .error e ∧ t' = t :=
  Results.of_run_pure h

/-- What is done to files does not fail, and the rest goes on with its result. -/
theorem of_work_lift_bind {act : StateT FileTree m α} {f : α → Work m β}
    {result : Except Failure β}
    (h : R.may (((liftM act : Work m α) >>= f).run.run t) (result, t'')) :
    ∃ a t', R.may (act.run t) (a, t') ∧ R.may ((f a).run.run t') (result, t'') := by
  obtain ⟨answer, t', hlift, hrest⟩ := Results.of_run_bind h
  obtain ⟨⟨a, _⟩, hact, hreturned⟩ := R.of_bind hlift
  cases R.of_pure hreturned
  exact ⟨a, _, hact, hrest⟩

namespace Session

theorem of_keep {act : Storage.Action α} {result : Except Ledger.Error α}
    (h : R.may ((keep act : StateT FileTree m _).run t) (result, t')) : act t = (result, t') :=
  (R.of_pure h).symm

/-- Something done to what is kept has the result that it has there. -/
theorem of_ask {act : Storage.Action α} {result : Except Failure α}
    (h : R.may ((ask act : Work m α).run.run t) (result, t')) :
    (act t).2 = t' ∧ result = (act t).1.mapError .ofLedger := by
  obtain ⟨answer, t₁, hkeep, hrest⟩ := of_work_lift_bind h
  have hact := of_keep hkeep
  cases answer with
  | ok a =>
    obtain ⟨rfl, rfl⟩ := of_work_pure hrest
    rw [hact]
    exact ⟨rfl, rfl⟩
  | error e =>
    obtain ⟨rfl, rfl⟩ := of_work_throw hrest
    rw [hact]
    exact ⟨rfl, rfl⟩

theorem of_printing {w : Work m String} {outcome : Outcome}
    (h : R.may ((printing w).run t) (outcome, t')) :
    ∃ result, R.may (w.run.run t) (result, t') ∧
      outcome = match result with
        | .ok text => { text }
        | .error failure => { failure := some failure } := by
  obtain ⟨result, t₁, hw, hrest⟩ := Results.of_run_bind h
  cases result with
  | ok text =>
    obtain ⟨rfl, rfl⟩ := Results.of_run_pure hrest
    exact ⟨_, hw, rfl⟩
  | error failure =>
    obtain ⟨rfl, rfl⟩ := Results.of_run_pure hrest
    exact ⟨_, hw, rfl⟩

end Session

end Work

namespace Session

open DataRoot (Opened)

variable {m : Type → Type} [Monad m] {R : Results m} {catalogs : Catalogs m} {s : Session}
  {root : String} {t t' : FileTree} {d : Database}

theorem quiet_sources (s : Session) (hc : ∀ given forced, R.Quiet (catalogs given forced)) :
    (s.sources catalogs).Quiet R where
  records := by
    intro t records t' h
    have hkept := of_keep h
    rw [← s.storage.records_files t]
    exact (congrArg Prod.snd hkept).symm
  catalog := hc
  artifactId := fun _ => R.quiet_pure _

/-- Recording a coordinate fails when the old record cannot be read, or puts a record with the
coordinate into the ledger, whose other fields are the old ones. -/
theorem record_cases {key : String} {c : Coordinate} {result : Except Failure Unit}
    (hrun : R.may ((s.record key c).run.run t) (result, t')) :
    (t' = t ∧ ∃ e, (s.storage.get key t).1 = .error e ∧ (∀ what, e ≠ .notFound what) ∧
        result = .error (.ofLedger e)) ∨
      ∃ old : Ledger.Record, ((s.storage.get key t).1 = .ok old ∨
          (∃ what, (s.storage.get key t).1 = .error (.notFound what)) ∧ old = { key }) ∧
        R.may ((ask (s.storage.upsert
          { old with artifactId := c.artifactId, version := c.version }) : Work m _).run.run t)
          (result, t') := by
  rw [record] at hrun
  obtain ⟨answer, t₁, hkept, hrest⟩ := of_work_lift_bind hrun
  have hget := of_keep hkept
  have ht : t₁ = t := by rw [← s.storage.get_files key t, hget]
  subst ht
  cases answer with
  | ok old =>
    rcases of_work_bind hrest with ⟨e, hpure, -⟩ | ⟨r, t₂, hpure, hput⟩
    · cases (of_work_pure hpure).1
    · obtain ⟨hr, rfl⟩ := of_work_pure hpure
      cases hr
      exact .inr ⟨old, .inl (by rw [hget]), hput⟩
  | error e =>
    cases e with
    | notFound what =>
      rcases of_work_bind hrest with ⟨e, hpure, -⟩ | ⟨r, t₂, hpure, hput⟩
      · cases (of_work_pure hpure).1
      · obtain ⟨hr, rfl⟩ := of_work_pure hpure
        cases hr
        exact .inr ⟨{ key }, .inr ⟨⟨what, by rw [hget]⟩, rfl⟩, hput⟩
    | _ =>
      rcases of_work_bind hrest with ⟨f, hthrow, rfl⟩ | ⟨r, t₂, hthrow, -⟩
      · obtain ⟨hf, rfl⟩ := of_work_throw hthrow
        cases hf
        exact .inl ⟨rfl, _, congrArg Prod.fst hget, fun what h => (by cases h), rfl⟩
      · cases (of_work_throw hthrow).1

/-- Resolving changes no file, unless what was found is recorded. -/
theorem resolve_cases (hc : ∀ given forced, R.Quiet (catalogs given forced)) {o : ResolveOptions}
    {result : Except Failure Resolution.Report}
    (hrun : R.may ((s.resolve catalogs o).run.run t) (result, t')) :
    (t' = t ∧ ∀ report, result = .ok report → o.save = true → report.coordinate = none) ∨
      ∃ report c saved, o.save = true ∧ report.coordinate = some c ∧
      R.may ((s.record o.key c).run.run t) (saved, t') ∧ (result = saved.map fun _ => report) ∧
      ∃ host, R.may ((Resolution.resolve (s.sources catalogs) (request host o)).run t)
        (.ok report, t) := by
  rw [resolve] at hrun
  cases hhost : s.hostVersion o with
  | error e =>
    rw [hhost] at hrun
    obtain ⟨rfl, rfl⟩ := of_work_throw hrun
    exact .inl ⟨rfl, fun _ hok => by cases hok⟩
  | ok host =>
    rw [hhost] at hrun
    obtain ⟨answer, t₁, hresolved, hrest⟩ := of_work_lift_bind hrun
    -- up to here the sources were only asked
    have ht : t₁ = t := Resolution.quiet_resolve (s.quiet_sources hc) _ _ _ _ hresolved
    subst ht
    cases answer with
    | error e =>
      obtain ⟨rfl, rfl⟩ := of_work_throw hrest
      exact .inl ⟨rfl, fun _ hok => by cases hok⟩
    | ok report =>
      dsimp only at hrest
      cases hfound : report.coordinate with
      | none =>
        rw [hfound] at hrest
        obtain ⟨rfl, rfl⟩ := of_work_pure hrest
        refine .inl ⟨rfl, fun _ hok _ => ?_⟩
        cases hok
        exact hfound
      | some c =>
        rw [hfound] at hrest
        dsimp only at hrest
        split at hrest
        · rename_i hsave
          rcases of_work_bind hrest with ⟨e, hsaved, rfl⟩ | ⟨saved, t₂, hsaved, hreturned⟩
          · exact .inr ⟨report, c, .error e, hsave, hfound, hsaved, rfl, host, hresolved⟩
          · obtain ⟨rfl, rfl⟩ := of_work_pure hreturned
            exact .inr ⟨report, c, .ok saved, hsave, hfound, hsaved, rfl, host, hresolved⟩
        · rename_i hsave
          exact .inl ⟨(of_work_pure hrest).2, fun _ _ h => absurd h hsave⟩

def Spared (root : String) (d : Database) (t' : FileTree) : Prop :=
  ∃ d', Opened root t' d' ∧ d'.settings = d.settings

theorem spared_record (h : Opened root t d) (hs : s.storage.IsAt root) {key : String}
    {c : Coordinate} {result : Except Failure Unit}
    (hrun : R.may ((s.record key c).run.run t) (result, t')) : Spared root d t' := by
  rcases record_cases hrun with ⟨rfl, -⟩ | ⟨old, -, hput⟩
  · exact ⟨d, h, rfl⟩
  · obtain ⟨rfl, -⟩ := of_ask hput
    exact h.upsert hs _

theorem spared_resolve (h : Opened root t d) (hs : s.storage.IsAt root)
    (hc : ∀ given forced, R.Quiet (catalogs given forced)) {o : ResolveOptions}
    {result : Except Failure Resolution.Report}
    (hrun : R.may ((s.resolve catalogs o).run.run t) (result, t')) : Spared root d t' := by
  rcases resolve_cases hc hrun with ⟨rfl, -⟩ | ⟨report, c, saved, -, -, hsaved, -⟩
  · exact ⟨d, h, rfl⟩
  · exact spared_record h hs hsaved

end Session

/-- What a task makes of the settings: they stay, or a task that is meant to change them and does
not fail makes valid ones of them. -/
inductive SettingsStep (old : Settings) : Task → Option Failure → Settings → Prop
  | kept (task : Task) (failure : Option Failure) : SettingsStep old task failure old
  | changed {u : Settings.Update} (asked : u.isEmpty = false)
      (valid : (old.merge u).validate = .ok ()) :
      SettingsStep old (.changeSettings u) none (old.merge u)
  | reset : SettingsStep old .resetSettings none .defaults

namespace Session

open DataRoot (Opened)

variable {m : Type → Type} [Monad m] {R : Results m} {catalogs : Catalogs m} {s : Session}
  {root : String} {t t' : FileTree} {d : Database} {stored : Settings}

theorem changeSettings_step (h : Opened root t d) (hs : s.storage.IsAt root)
    (hd : d.loadSettings = .ok stored) {u : Settings.Update} {result : Except Failure Settings}
    (hrun : R.may ((s.changeSettings u).run.run t) (result, t')) :
    ∃ d', Opened root t' d' ∧
      ((∃ e, result = .error e) ∧ d'.loadSettings = .ok stored ∨
        (∃ new, result = .ok new) ∧ (stored.merge u).validate = .ok () ∧
          d'.loadSettings = .ok (stored.merge u)) := by
  have hload := h.loadSettings hs
  rcases of_work_bind hrun with ⟨e, hasked, -⟩ | ⟨old, t₁, hasked, hrest⟩
  · have hresult := (of_ask hasked).2
    rw [hload, hd] at hresult
    cases hresult
  obtain ⟨ht, hresult⟩ := of_ask hasked
  rw [hload] at ht
  cases ht
  rw [hload, hd] at hresult
  cases hresult
  dsimp only at hrest
  cases hv : (stored.merge u).validate with
  | error e =>
    rw [hv] at hrest
    obtain ⟨rfl, rfl⟩ := of_work_throw hrest
    exact ⟨d, h, .inl ⟨⟨_, rfl⟩, hd⟩⟩
  | ok =>
    rw [hv] at hrest
    obtain ⟨t₂, d', hsave, hopened, hnew⟩ := h.saveSettings hs (stored.merge u)
    rcases of_work_bind hrest with ⟨e, hsaved, -⟩ | ⟨_, t₃, hsaved, hreturned⟩
    · have hresult := (of_ask hsaved).2
      rw [hsave] at hresult
      cases hresult
    · obtain ⟨rfl, -⟩ := of_ask hsaved
      obtain ⟨rfl, rfl⟩ := of_work_pure hreturned
      rw [hsave]
      exact ⟨d', hopened, .inr ⟨⟨_, rfl⟩, rfl, hnew⟩⟩

/-- What is printed of the result of some work says nothing else about the files. -/
theorem of_printing_return {α : Type} {w : Work m α} {f : α → String} {outcome : Outcome}
    (hrun : R.may ((printing (do return f (← w))).run t) (outcome, t')) :
    ∃ result, R.may (w.run.run t) (result, t') ∧
      outcome.failure = match result with
        | .ok _ => none
        | .error e => some e := by
  obtain ⟨result, hwork, rfl⟩ := of_printing hrun
  rcases of_work_bind hwork with ⟨e, hfailed, rfl⟩ | ⟨a, t₁, hdone, hreturned⟩
  · exact ⟨.error e, hfailed, rfl⟩
  · obtain ⟨rfl, rfl⟩ := of_work_pure hreturned
    exact ⟨.ok a, hdone, rfl⟩

theorem files_of_printing_ask {α : Type} {act : Storage.Action α} {f : α → String}
    {outcome : Outcome} (hrun : R.may ((printing (do return f (← ask act))).run t) (outcome, t')) :
    t' = (act t).2 := by
  obtain ⟨result, hwork, -⟩ := of_printing_return hrun
  exact (of_ask hwork).1.symm

theorem add_cases {r : Ledger.Record} {result : Except Failure Unit}
    (hrun : R.may ((s.add r).run.run t) (result, t')) :
    (t' = t ∧ ∃ e, result = .error e) ∨
      R.may ((ask (s.storage.upsert r) : Work m _).run.run t) (result, t') := by
  rw [add] at hrun
  split at hrun
  · obtain ⟨rfl, rfl⟩ := of_work_throw hrun
    exact .inl ⟨rfl, _, rfl⟩
  · exact .inr hrun

structure IsAt (s : Session) (root : String) : Prop where
  rooted : s.root = .ofRoot root
  storage : s.storage.IsAt root

/-- Every task leaves the root open, with settings that follow from the old ones. -/
theorem run_step (h : Opened root t d) (hs : s.IsAt root)
    (hc : ∀ given forced, R.Quiet (catalogs given forced)) (hd : d.loadSettings = .ok stored)
    {task : Task} {outcome : Outcome}
    (hrun : R.may ((s.run catalogs task).run t) (outcome, t')) :
    ∃ d' new, Opened root t' d' ∧ d'.loadSettings = .ok new ∧
      SettingsStep stored task outcome.failure new := by
  -- all tasks but two spare the settings, whatever they do to the ledger
  have kept (hspared : Spared root d t') : ∃ d' new, Opened root t' d' ∧
      d'.loadSettings = .ok new ∧ SettingsStep stored task outcome.failure new := by
    obtain ⟨d', hopened, hsettings⟩ := hspared
    exact ⟨d', stored, hopened, (Database.loadSettings_congr hsettings).trans hd, .kept _ _⟩
  cases task with
  | resolve o =>
    obtain ⟨result, t₁, hresolved, hreturned⟩ := Results.of_run_bind hrun
    have hspared := spared_resolve h hs.storage hc hresolved
    cases result with
    | ok report =>
      obtain ⟨rfl, rfl⟩ := Results.of_run_pure hreturned
      exact kept hspared
    | error failure =>
      obtain ⟨rfl, rfl⟩ := Results.of_run_pure hreturned
      exact kept hspared
  | listRecords =>
    have hfiles := files_of_printing_ask hrun
    rw [s.storage.records_files] at hfiles
    exact kept ⟨d, hfiles ▸ h, rfl⟩
  | showRecord key =>
    have hfiles := files_of_printing_ask hrun
    rw [s.storage.get_files] at hfiles
    exact kept ⟨d, hfiles ▸ h, rfl⟩
  | addRecord r =>
    obtain ⟨result, hadded, -⟩ := of_printing_return hrun
    rcases add_cases hadded with ⟨rfl, -⟩ | hput
    · exact kept ⟨d, h, rfl⟩
    · obtain ⟨rfl, -⟩ := of_ask hput
      exact kept (h.upsert hs.storage r)
  | removeRecord key =>
    have hfiles := files_of_printing_ask hrun
    exact kept (hfiles ▸ h.remove hs.storage key)
  | catalog hostVersion forced plugin =>
    obtain ⟨result, t₁, hasked, hreturned⟩ := Results.of_run_bind hrun
    have ht := hc hostVersion forced _ _ _ hasked
    subst ht
    cases result with
    | ok c =>
      obtain ⟨rfl, rfl⟩ := Results.of_run_pure hreturned
      exact kept ⟨d, h, rfl⟩
    | error e =>
      obtain ⟨rfl, rfl⟩ := Results.of_run_pure hreturned
      exact kept ⟨d, h, rfl⟩
  | showSettings =>
    have hfiles := files_of_printing_ask hrun
    rw [h.loadSettings hs.storage] at hfiles
    exact kept ⟨d, hfiles ▸ h, rfl⟩
  | changeSettings u =>
    rw [run] at hrun
    split at hrun
    · obtain ⟨rfl, rfl⟩ := Results.of_run_pure hrun
      exact kept ⟨d, h, rfl⟩
    · rename_i hasked
      obtain ⟨result, hchanged, hfailure⟩ := of_printing_return hrun
      obtain ⟨d', hopened, hcases⟩ := changeSettings_step h hs.storage hd hchanged
      rcases hcases with ⟨-, hload⟩ | ⟨⟨new, rfl⟩, hvalid, hload⟩
      · exact ⟨d', stored, hopened, hload, .kept _ _⟩
      · rw [hfailure]
        exact ⟨d', _, hopened, hload, .changed (by simpa using hasked) hvalid⟩
  | resetSettings =>
    obtain ⟨result, hsaved, hfailure⟩ := of_printing_return hrun
    obtain ⟨t₁, d', hsave, hopened, hload⟩ := h.saveSettings hs.storage .defaults
    obtain ⟨ht, hresult⟩ := of_ask hsaved
    rw [hsave] at ht hresult
    cases ht
    cases hresult
    rw [hfailure]
    exact ⟨d', _, hopened, hload, .reset⟩
  | paths =>
    obtain ⟨result, hwork, -⟩ := of_printing hrun
    -- the directories are made again, where they are already
    have hbelow := DataRoot.below_of_hasDirectories h.directories
    rw [hs.rooted] at hwork
    obtain ⟨answer, t₁, hmade, hrest⟩ := of_work_lift_bind hwork
    have hpair : (answer, t₁) = (.ok (.ofRoot root), t) := (R.of_pure hmade).trans hbelow
    cases hpair
    obtain ⟨-, rfl⟩ := of_work_pure hrest
    exact kept ⟨d, h, rfl⟩

end Session

end Command

end PluginResolution
