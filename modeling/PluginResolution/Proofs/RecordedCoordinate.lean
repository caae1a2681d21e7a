import Mathlib.Control.Monad.Basic
import PluginResolution.Proofs.ProgramSteps
import PluginResolution.Proofs.TierSteps
import PluginResolution.Proofs.TrimmedText

namespace PluginResolution

open DataRoot (Opened Opens stored?)
open FileTree (Spares)

def Ledger.Record.IsOnlyIn (r : Record) (records : List Record) : Prop :=
  r ∈ records ∧ ∀ s ∈ records, s.key = r.key → s = r

namespace Coordinate

variable {c : Coordinate} {a v : String}

theorem of_complete (h : c.complete? = some (a, v)) :
    c.artifactId = some a ∧ c.version = some v := by
  rw [complete?] at h
  cases ha : c.artifactId with
  | none => simp [ha] at h
  | some x =>
    cases hv : c.version with
    | none => simp [ha, hv] at h
    | some y =>
      simp only [ha, hv, Option.some.injEq, Prod.mk.injEq] at h
      rw [h.1, h.2]
      exact ⟨rfl, rfl⟩

/-- What is set of a coordinate is as complete as the coordinate. -/
theorem complete_set (c : Coordinate) :
    (Coordinate.mk c.artifactId c.version).complete? = c.complete? := by
  have ha : (Coordinate.mk c.artifactId c.version).artifactId = c.artifactId := setValue_setValue _
  have hv : (Coordinate.mk c.artifactId c.version).version = c.version := setValue_setValue _
  rw [complete?, complete?, ha, hv]

theorem isComplete_of_complete (h : c.complete? = some (a, v)) :
    (Coordinate.mk (some a) (some v)).isComplete = true := by
  obtain ⟨ha, hv⟩ := of_complete h
  obtain ⟨ha', hv'⟩ := of_complete ((complete_set c).trans h)
  rw [ha, hv] at ha' hv'
  rw [isComplete, ha', hv']
  rfl

/-- What is complete is adopted whole where nothing is found yet. -/
theorem fill_empty_of_complete (h : c.complete? = some (a, v)) :
    Coordinate.fill {} c = (⟨some a, some v⟩, true) := by
  obtain ⟨ha, hv⟩ := of_complete h
  have hartifact : setValue (some a) = some a := by rw [← ha]; exact setValue_setValue _
  have hversion : setValue (some v) = some v := by rw [← hv]; exact setValue_setValue _
  simp only [fill, fillArtifactId, fillVersion, ha, hv, hartifact, hversion]
  rfl

end Coordinate

namespace Resolution

theorem Tier.findRecord_of_isOnlyIn {r : Ledger.Record} {records : List Ledger.Record}
    (h : r.IsOnlyIn records) (hset : r.hasIdentifier = true) :
    findRecord? r.key records = some r := by
  cases hf : findRecord? r.key records with
  | none =>
    have hnone := List.find?_eq_none.mp hf r h.1
    simp [hset] at hnone
  | some s =>
    have hs := List.find?_some hf
    have hkey : s.key = r.key := by simpa using (Bool.and_eq_true_iff.mp hs).1
    rw [h.2 s (List.mem_of_find?_eq_some hf) hkey]

def Report.ofLedger (a v : String) : Report where
  coordinate := some ⟨some a, some v⟩
  decidedBy := some .identifierStore
  contributors := [.identifierStore]

/-- A complete record is the answer, and no source after the ledger is asked. -/
theorem resolve_run_of_recorded {σ : Type} {m : Type → Type} [Monad m] [LawfulMonad m]
    {s : Sources (StateT σ m)} {q : Request} {x : σ} {records : List Ledger.Record}
    {r : Ledger.Record} {a v : String} (valid : q.validate = .ok ()) (unforced : q.forced = false)
    (unknown : q.known.isEmpty = true) (read : s.records.run x = pure (.ok records, x))
    (only : r.IsOnlyIn records) (under : r.key = q.key)
    (complete : r.coordinate.complete? = some (a, v)) :
    (resolve s q).run x = pure (.ok (.ofLedger a v), x) := by
  obtain ⟨ha, hv⟩ := Coordinate.of_complete complete
  have hset : r.hasIdentifier = true := by
    simp [Ledger.Record.hasIdentifier, Coordinate.isEmpty, ha]
  have hshare := contribute_run_identifierStore (r := q) {} read
  rw [← under, Tier.findRecord_of_isOnlyIn only hset] at hshare
  dsimp only at hshare
  have happlies : Tier.identifierStore.applies q {} = true := by simp [Tier.applies, unforced]
  rw [Coordinate.fill_empty_of_complete complete] at hshare
  rw [resolve_run_of_unknown valid unknown]
  exact ask_run_decided (p := {}) happlies hshare (Coordinate.isComplete_of_complete complete)

end Resolution

namespace Ledger.File

variable {t t' : FileTree} {path : String} {m : Contents}

/-- A ledger that holds something is read as before if its file is spared. -/
theorem read_of_spares (hread : read t path = .ok m) (hm : m ≠ .empty)
    (hs : Spares (t.partsOf path) t t') : read t' path = .ok m := by
  rcases of_read hread with rfl | ⟨text, htext, hcontents⟩
  · exact absurd rfl hm
  · rw [read, FileTree.readText, hs.read htext]
    simp only [bind, Except.bind, pure, Except.pure, hcontents]

theorem key_of_get {key : String} {r : Record} (h : get t path key = .ok r) : r.key = key := by
  rw [get] at h
  cases hread : read t path with
  | error e => simp [hread, bind, Except.bind] at h
  | ok m =>
    simp only [hread, bind, Except.bind] at h
    cases hf : m.find? key with
    | none => simp [hf, throw, throwThe, MonadExceptOf.throw] at h
    | some x =>
      simp only [hf] at h
      cases h
      exact keyed_of_read hread (key, r) (KeyMap.mem_entries_iff.mpr hf)

end Ledger.File

theorem Database.key_of_get {d : Database} {r : Ledger.Record} {key : String}
    (h : d.get key = .ok r) : r.key = key := by
  rw [get] at h
  cases ht : d.table with
  | error e => simp [ht, bind, Except.bind] at h
  | ok table =>
    simp only [ht, bind, Except.bind, Ledger.Table.get] at h
    cases hf : table.find? key with
    | none => simp [hf] at h
    | some x =>
      rw [hf] at h
      cases h
      simpa using List.find?_some hf

namespace Storage

variable {s : Storage} {root : String} {t t' : FileTree} {d : Database} {r : Ledger.Record}

def HasOnly (s : Storage) (r : Ledger.Record) (t : FileTree) : Prop :=
  ∃ records, s.records t = (.ok records, t) ∧ r.IsOnlyIn records

theorem hasOnly_of_read (hb : s.backend = .json) {m : Ledger.Contents}
    (hread : Ledger.File.read t s.ledger = .ok m) (hfound : m.find? r.key = some r) :
    s.HasOnly r t := by
  have hm := Ledger.File.keyed_of_read hread
  refine ⟨m.values, ?_, (Ledger.Contents.mem_values hm).mpr hfound, fun x hx hkey => ?_⟩
  · rw [records, hb]
    exact congrArg (·, t) (Ledger.File.records_of_read hread)
  · have hx := (Ledger.Contents.mem_values hm).mp hx
    rw [hkey, hfound] at hx
    exact (Option.some.inj hx).symm

theorem not_blank_of_upsert (hput : s.upsert r t = (.ok (), t')) :
    Text.isBlankText r.key = false := by
  cases hblank : Text.isBlankText r.key with
  | true =>
    rw [upsert, hblank, if_pos rfl] at hput
    cases hput
  | false => rfl

/-- A record that is put into the ledger is the only one under its key then. -/
theorem hasOnly_of_upsert (h : Opened root t d) (hs : s.IsAt root)
    (hput : s.upsert r t = (.ok (), t')) : s.HasOnly r t' := by
  have hblank := not_blank_of_upsert hput
  rw [upsert, hblank, if_neg Bool.false_ne_true] at hput
  cases hb : s.backend with
  | sqlite =>
    rw [hb] at hput
    dsimp only at hput
    cases hstep : d.upsert r with
    | error e =>
      rw [change_error (h.read hs) (·.upsert r) hstep] at hput
      cases hput
    | ok d' =>
      obtain ⟨table, -, -, rfl⟩ := Database.of_upsert hstep
      -- the table may repeat keys, but not this one once the record is put in
      obtain ⟨t₁, hrun, hopened⟩ := h.change hs (·.upsert r) hstep ⟨rfl, h.tables.settings⟩
      rw [hrun] at hput
      cases hput
      have hself := Ledger.Table.mem_list.mpr (Ledger.Table.self_mem_put table r)
      refine ⟨(table.put r).list, ?_, hself,
        fun x hx => Ledger.Table.mem_put (Ledger.Table.mem_list.mp hx)⟩
      rw [records, hb]
      exact query_of_read (hopened.read hs) Database.records
  | json =>
    rw [hb] at hput
    dsimp only at hput
    cases hread : Ledger.File.read t s.ledger with
    | error e =>
      rw [Ledger.File.upsert_of_unreadable hread hblank] at hput
      cases hput
    | ok m =>
      rw [Ledger.File.upsert_of_read hread hblank] at hput
      -- the whole ledger is written anew, and read as it was written
      have hm := (Ledger.File.keyed_of_read hread).insert r
      obtain ⟨t₁, hwrite, -, hreread⟩ :=
        Ledger.File.write_of_write (congrArg Prod.fst hput) hm
      rw [hwrite] at hput
      cases hput
      exact hasOnly_of_read hb hreread (KeyMap.find?_insert_self m r.key r)

/-- Opening the root once more leaves the ledger as it is, in the database and in its file. -/
theorem HasOnly.opens (hr : s.HasOnly r t) (h : Opened root t d) (hs : s.IsAt root) :
    ∃ t', Opens root t d t' ∧ s.HasOnly r t' := by
  obtain ⟨t', hopens, hspares⟩ := h.opens_sparing
  obtain ⟨list, hlist, honly⟩ := hr
  refine ⟨t', hopens, ?_⟩
  -- opening writes the database with what it held, and no other file
  cases hb : s.backend with
  | sqlite =>
    have hbefore := query_of_read (h.read hs) Database.records
    have hafter := query_of_read (hopens.opened.read hs) Database.records
    rw [records, hb] at hlist
    dsimp only at hlist
    rw [hbefore] at hlist
    refine ⟨list, ?_, honly⟩
    rw [records, hb]
    exact hafter.trans (congrArg (·, t') (congrArg Prod.fst hlist))
  | json =>
    rw [records, hb] at hlist
    dsimp only at hlist
    cases hread : Ledger.File.read t s.ledger with
    | error e =>
      rw [Ledger.File.records, hread] at hlist
      cases hlist
    | ok m =>
      rw [Ledger.File.records_of_read hread] at hlist
      cases hlist
      have hfound := (Ledger.Contents.mem_values (Ledger.File.keyed_of_read hread)).mp honly.1
      have hne : m ≠ .empty := by
        rintro rfl
        cases hfound
      have hparts : t.partsOf (DataRoot.ofRoot root).database ≠ t.partsOf s.ledger := by
        rw [hs.ledger]
        exact (DataRoot.partsOf_ledger_ne t root).1.symm
      exact hasOnly_of_read hb (Ledger.File.read_of_spares hread hne (hspares _ hparts)) hfound

theorem key_of_get {key : String} (h : Opened root t d) (hs : s.IsAt root)
    (hget : (s.get key t).1 = .ok r) : r.key = key := by
  rw [get] at hget
  cases hb : s.backend with
  | sqlite =>
    rw [hb] at hget
    dsimp only at hget
    rw [query_of_read (h.read hs) (·.get key)] at hget
    exact Database.key_of_get hget
  | json =>
    rw [hb] at hget
    exact Ledger.File.key_of_get hget

end Storage

namespace Command.Session

variable {m : Type → Type} [Monad m] {R : Results m} {catalogs : Catalogs m} {s : Session}
  {root key a v : String} {t t₀ t₁ t₂ : FileTree} {d : Database} {stored : Settings}
  {asked asked' url url' : Option String} {around around' : DataRoot.Surroundings}

/-- Work of a session that succeeds and records a coordinate under a key: it is added, or is what a
resolution answers that is to save what it finds. -/
inductive Recorded (R : Results m) (s : Session) (catalogs : Catalogs m) (key a v : String)
    (t t' : FileTree) : Prop
  | added (r : Ledger.Record) (under : r.key = key) (given : r.coordinate.complete? = some (a, v))
      (done : R.may ((s.add r).run.run t) (.ok (), t'))
  | saved (o : ResolveOptions) (report : Resolution.Report) (c : Coordinate) (under : o.key = key)
      (save : o.save = true) (answer : report.coordinate = some c)
      (given : c.complete? = some (a, v))
      (done : R.may ((s.resolve catalogs o).run.run t) (.ok report, t'))

theorem of_ask_ok {act : Storage.Action Unit} {t t' : FileTree}
    (h : R.may ((ask act : Work m Unit).run.run t) (.ok (), t')) : act t = (.ok (), t') := by
  obtain ⟨rfl, hresult⟩ := of_ask h
  cases hact : act t with
  | mk answer t' =>
    rw [hact] at hresult
    cases answer with
    | ok u => rfl
    | error e => cases hresult

/-- Whichever way it is recorded, a record with the coordinate is put into the ledger. -/
theorem Recorded.upsert (h : Recorded R s catalogs key a v t₁ t₂)
    (quiet : ∀ given forced, R.Quiet (catalogs given forced)) (hopened : Opened root t₁ d)
    (hs : s.storage.IsAt root) :
    ∃ r : Ledger.Record, r.key = key ∧ r.coordinate.complete? = some (a, v) ∧
      s.storage.upsert r t₁ = (.ok (), t₂) := by
  cases h with
  | added r under given done =>
    rcases add_cases done with ⟨-, e, hfailed⟩ | hput
    · cases hfailed
    · exact ⟨r, under, given, of_ask_ok hput⟩
  | saved o report c under save answer given done =>
    rcases resolve_cases quiet done with ⟨-, hnone⟩ | ⟨report', c', saved, -, hc, hsaved, hresult, -⟩
    · rw [hnone report rfl save] at answer
      cases answer
    · cases saved with
      | error e => cases hresult
      | ok u =>
        cases hresult
        rw [answer] at hc
        cases hc
        rcases record_cases hsaved with ⟨-, e, -, -, hfailed⟩ | ⟨old, hold, hput⟩
        · cases hfailed
        · refine ⟨{ old with artifactId := c.artifactId, version := c.version }, ?_,
            (Coordinate.complete_set c).trans given, of_ask_ok hput⟩
          -- the old record, if there is one, was found under the key
          rcases hold with hget | ⟨-, rfl⟩
          · exact (Storage.key_of_get hopened hs hget).trans under
          · exact under

/-- Where the settings in force are valid a session starts after another one, and reads what that
one has put into the ledger. -/
theorem start_of_upsert {r : Ledger.Record} (hstored : stored? root t₀ = some stored)
    (chosen : DataRoot.choose asked around = .ok root)
    (started : start asked around url t₀ = (.ok s, t₁))
    (hput : s.storage.upsert r t₁ = (.ok (), t₂))
    (chosen' : DataRoot.choose asked' around' = .ok root)
    (valid : (inForce stored url').validate = .ok ()) :
    ∃ s' t₃, start asked' around' url' t₂ = (.ok s', t₃) ∧ s'.storage.HasOnly r t₃ := by
  obtain ⟨root', d, stored', hchosen, hopens, hd, rfl⟩ := of_start started
  rw [chosen] at hchosen
  cases hchosen
  rw [hopens.stored_eq hd] at hstored
  cases hstored
  have hs := Storage.isAt_ofRoot root (inForce stored url).effectiveBackend
  obtain ⟨d', hopened, hsettings⟩ := hopens.opened.upsert hs r
  have honly := Storage.hasOnly_of_upsert hopens.opened hs hput
  change Opened root ((ofStored root stored url).storage.upsert r t₁).2 d' at hopened
  rw [hput] at hopened
  obtain ⟨t₃, hreopens, honly⟩ := honly.opens hopened hs
  have hstart := start_of_opens hreopens ((Database.loadSettings_congr hsettings).trans hd) url'
    chosen'
  rw [valid] at hstart
  refine ⟨_, t₃, hstart, ?_⟩
  -- a catalog URL has no say in where the ledger is kept
  have hbackend :
      (inForce stored url').effectiveBackend = (inForce stored url).effectiveBackend := by
    cases url <;> cases url' <;> rfl
  change Storage.HasOnly ⟨_, _, (inForce stored url').effectiveBackend⟩ r t₃
  rw [hbackend]
  exact honly

section Returning

variable {m : Type → Type} [Monad m] [LawfulMonad m] {α β : Type} {t t' : FileTree}

theorem run_lift_bind {act : StateT FileTree m α} {f : α → Work m β} {a : α}
    (h : act.run t = pure (a, t')) :
    ((liftM act : Work m α) >>= f).run.run t = (f a).run.run t' := by
  rw [ExceptT.run_bind]
  simp only [liftM, monadLift, MonadLift.monadLift, ExceptT.run_lift, map_eq_pure_bind, bind_assoc,
    pure_bind, StateT.run_bind, h]

/-- What the storage does for a session that asks, it does without further effects. -/
theorem ask_run {act : Storage.Action α} {a : α} (h : act t = (.ok a, t')) :
    (ask act : Work m α).run.run t = pure (.ok a, t') := by
  have hkeep : (keep act : StateT FileTree m _).run t = pure (.ok a, t') := congrArg pure h
  rw [ask, run_lift_bind hkeep]
  rfl

/-- A report that is not to be saved is returned as it is. -/
theorem resolve_run {s : Session} {catalogs : Catalogs m} {o : ResolveOptions} {host : String}
    {report : Resolution.Report} (hhost : s.hostVersion o = .ok host) (unsaved : o.save = false)
    (hrun : (Resolution.resolve (s.sources catalogs) (request host o)).run t =
      pure (.ok report, t)) :
    (s.resolve catalogs o).run.run t = pure (.ok report, t) := by
  rw [resolve, hhost]
  dsimp only
  rw [run_lift_bind hrun]
  simp only [unsaved, Bool.false_eq_true, if_false]
  cases report.coordinate <;> rfl

end Returning

/-- What the ledger has under the key is asked for: it is not passed over, no field is told, and
nothing is to be saved. -/
structure Asks (key : String) (o : ResolveOptions) : Prop where
  key : Text.trim o.key = key
  unforced : o.forced = false
  untold : Coordinate.isEmpty ⟨o.artifactId, o.version⟩ = true
  unsaved : o.save = false

theorem Asks.validate {o : ResolveOptions} {host : String} (h : Asks key o)
    (hkey : Text.isBlankText key = false) (hhost : Text.isBlankText host = false) :
    (request host o).validate = .ok () := by
  have hhost' : Text.isBlankText (Text.trim host) = false :=
    (Text.isBlankText_trim host).trans hhost
  have hkey' : Text.isBlankText (Text.trim o.key) = false :=
    (congrArg Text.isBlankText h.key).trans hkey
  change Resolution.Request.validate ⟨Text.trim host, Text.trim o.key, _, _, _⟩ = _
  rw [Resolution.Request.validate]
  simp only [hhost', hkey', Text.trim_trim, Bool.false_eq_true, if_false, ne_eq, not_true_eq_false]

/-- A coordinate that a session has recorded under a key is what the next session answers at the
same data root, if its settings are valid: whatever the host version, the ledger's backend and what
the ledger held before. The ledger decides, and the catalog, which may be any, is not asked. The key
that is asked for is the recorded one up to blanks around it, so nothing is said of a key that was
recorded with blanks around it. -/
theorem resolve_of_recorded {n : Type → Type} [Monad n] [LawfulMonad n]
    (hstored : stored? root t₀ = some stored) (chosen : DataRoot.choose asked around = .ok root)
    (started : start asked around url t₀ = (.ok s, t₁))
    (quiet : ∀ given forced, R.Quiet (catalogs given forced))
    (recorded : Recorded R s catalogs key a v t₁ t₂)
    (chosen' : DataRoot.choose asked' around' = .ok root)
    (valid : (inForce stored url').validate = .ok ()) :
    ∃ s' t₃, start asked' around' url' t₂ = (.ok s', t₃) ∧
      ∀ (catalogs' : Catalogs n) (o : ResolveOptions) (host : String), Asks key o →
        s'.hostVersion o = .ok host → Text.isBlankText host = false →
          (s'.resolve catalogs' o).run.run t₃ = pure (.ok (.ofLedger a v), t₃) := by
  obtain ⟨root', d, stored', hchosen, hopens, -, rfl⟩ := of_start started
  rw [chosen] at hchosen
  cases hchosen
  obtain ⟨r, under, complete, hput⟩ :=
    recorded.upsert quiet hopens.opened (Storage.isAt_ofRoot root _)
  obtain ⟨s', t₃, hstart, records, hread, only⟩ :=
    start_of_upsert hstored chosen started hput chosen' valid
  refine ⟨s', t₃, hstart, fun catalogs' o host asks hhost hfilled => ?_⟩
  have hkey : Text.isBlankText key = false := under ▸ Storage.not_blank_of_upsert hput
  have hrecords : (s'.sources catalogs').records.run t₃ = pure (.ok records, t₃) := by
    change pure (s'.storage.records t₃) = _
    rw [hread]
  refine resolve_run hhost asks.unsaved ?_
  exact Resolution.resolve_run_of_recorded (asks.validate hkey hfilled) asks.unforced asks.untold
    hrecords only (under.trans asks.key.symm) complete

/-- A record is added at a root where there was nothing, and the next session answers it. -/
theorem resolve_of_recorded_added :
    ∃ s t₁ t₂ s' t₃, start (some "/k") {} none ⟨[], []⟩ = (.ok s, t₁) ∧
      (s.add { key := "stripe", artifactId := some "stripe-plugin", version := some "7.0.0" } :
        Work Id Unit).run.run t₁ = pure (.ok (), t₂) ∧
      start (some "/k") {} none t₂ = (.ok s', t₃) ∧
      ∀ catalogs : Catalogs Id,
        (s'.resolve catalogs { key := " stripe ", hostVersion := some "0.24.1" }).run.run t₃ =
          pure (.ok (.ofLedger "stripe-plugin" "7.0.0"), t₃) := by
  have fresh : DataRoot.Fresh "/k" ⟨[], []⟩ := ⟨_, _, rfl, rfl, rfl⟩
  obtain ⟨t₁, hopens⟩ := fresh.opens
  have chosen : DataRoot.choose (some "/k") {} = .ok "/k" := rfl
  have valid : (inForce .defaults none).validate = .ok () := Settings.validate_defaults
  have started := start_of_opens hopens rfl none chosen
  rw [valid] at started
  let r : Ledger.Record :=
    { key := "stripe", artifactId := some "stripe-plugin", version := some "7.0.0" }
  have unblank : ¬ Text.isBlankText r.key = true := by decide
  have hat := Storage.isAt_ofRoot "/k" .sqlite
  have hstep : (Database.withTables {}).upsert r =
      .ok { identifiers := some { rows := [r] }, settings := some none } := by decide +kernel
  obtain ⟨t₂, hput, -⟩ := hopens.opened.change hat (·.upsert r) hstep ⟨rfl, rfl⟩
  have added : ((ofStored "/k" .defaults none).add r : Work Id Unit).run.run t₁ =
      pure (.ok (), t₂) := by
    rw [add, if_neg unblank]
    refine ask_run ?_
    rw [Storage.upsert, if_neg unblank]
    exact hput
  let silent : Catalogs Id := fun _ _ => return .error (.unavailable "")
  have recorded : Recorded .ofId (ofStored "/k" .defaults none) silent "stripe" "stripe-plugin"
      "7.0.0" t₁ t₂ := .added r rfl (by decide) added.symm
  obtain ⟨s', t₃, restarted, answers⟩ := resolve_of_recorded (n := Id) (hopens.stored_eq rfl)
    chosen started (fun _ _ => Results.quiet_pure _ _) recorded chosen valid
  refine ⟨_, t₁, t₂, s', t₃, started, added, restarted, fun catalogs => ?_⟩
  exact answers catalogs _ "0.24.1" ⟨by decide, rfl, rfl, rfl⟩ rfl (by decide)

/-- A key is recorded with the blank before it, and asked for without. -/
theorem padded_key_recorded_unfound :
    let e : Environment := { bindings := [("KPM_DATA_DIR", "/k")] }
    let added := runAlone e ["identifiers", "add", " stripe", "--artifact-id", "stripe-plugin",
      "--version", "7.0.0"] ⟨[], []⟩
    let resolved := runAlone e ["resolve", " stripe", "--host-version", "0.24.1"] added.after
    added.ending = .ran "✓ Recorded identifier for ' stripe'\n" none ∧
      resolved.ending.exitCode = (Failure.unresolved " stripe").exitCode := by
  decide +kernel

end Command.Session

end PluginResolution
