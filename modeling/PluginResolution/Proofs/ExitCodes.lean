import PluginResolution.Proofs.ProgramSteps
import PluginResolution.Proofs.ReportedFaults
import PluginResolution.Proofs.TrimmedText

/-!
Why a run of the program fails, and with which exit code. The cause is told from what the run met:
the files, the settings in force, the answers of the directory. Each cause has an exit code of its
own, with two exceptions. A database that cannot be opened ends a run with the code of no cause at
all, and a resolution that needs the directory calls every failure of the catalog by one name.
-/
namespace PluginResolution

namespace Results

variable {m : Type → Type} [Monad m] {R : Results m} {σ κ α β : Type} {x x' x'' : σ}
  {k k' k'' : κ}

theorem of_runs_pure {a b : α}
    (h : R.may (((pure a : StateT σ (StateT κ m) α).run x).run k) ((b, x'), k')) :
    b = a ∧ x' = x ∧ k' = k := by
  have heq := R.of_pure h
  exact ⟨congrArg (·.1.1) heq, congrArg (·.1.2) heq, congrArg (·.2) heq⟩

/-- Both states are handed on. -/
theorem of_runs_bind {act : StateT σ (StateT κ m) α} {f : α → StateT σ (StateT κ m) β} {b : β}
    (h : R.may (((act >>= f).run x).run k) ((b, x''), k'')) :
    ∃ a x' k', R.may ((act.run x).run k) ((a, x'), k') ∧
      R.may (((f a).run x').run k') ((b, x''), k'') := by
  obtain ⟨⟨⟨a, x'⟩, k'⟩, hact, hrest⟩ := R.of_bind h
  exact ⟨a, x', k', hact, hrest⟩

theorem of_runs_lift_bind {ε : Type} {act : StateT σ (StateT κ m) α}
    {f : α → ExceptT ε (StateT σ (StateT κ m)) β} {result : Except ε β}
    (h : R.may ((((liftM act : ExceptT ε (StateT σ (StateT κ m)) α) >>= f).run.run x).run k)
      ((result, x''), k'')) :
    ∃ a x' k', R.may ((act.run x).run k) ((a, x'), k') ∧
      R.may (((f a).run.run x').run k') ((result, x''), k'') := by
  obtain ⟨answer, x', k', hlift, hrest⟩ := of_runs_bind h
  obtain ⟨⟨⟨a, _⟩, _⟩, hact, hreturned⟩ := R.of_bind hlift
  cases R.of_pure hreturned
  exact ⟨a, _, _, hact, hrest⟩

end Results

namespace Resolution

/-- Tiers that a request can do without never end it. -/
theorem ask_of_spared {m : Type → Type} [Monad m] {R : Results m} {s : Sources m} {r : Request}
    {ts : List Tier} (spared : ∀ t ∈ ts, t.isRequired r = false) {p : Progress} {e : Error} :
    ¬ R.may (ask s r ts p) (.error e) := by
  intro h
  induction ts generalizing p with
  | nil => cases R.of_pure h
  | cons t ts ih =>
    have hrest : ∀ t ∈ ts, t.isRequired r = false := fun t ht =>
      spared t (List.mem_cons_of_mem _ ht)
    rw [ask] at h
    split at h
    · obtain ⟨answer, -, hgoes⟩ := R.of_bind h
      cases answer with
      | error wrong =>
        dsimp only at hgoes
        rw [spared t List.mem_cons_self, if_neg Bool.false_ne_true] at hgoes
        exact ih hrest hgoes
      | ok filled =>
        dsimp only at hgoes
        split at hgoes
        · cases R.of_pure hgoes
        · exact ih hrest hgoes
    · exact ih hrest h

variable {m : Type → Type} [Monad m] {R : Results m} {σ κ : Type}
  {s : Sources (StateT σ (StateT κ m))} {r : Request} {x x' : σ} {k k' : κ}

/-- A resolution fails on an invalid request, or on a directory it was told to ask anew. The
directory is the first thing it asks then. -/
theorem of_resolve_error {e : Error}
    (h : R.may (((resolve s r).run x).run k) ((.error e, x'), k')) :
    (∃ fault, r.validate = .error fault ∧ e = .invalidRequest fault) ∨
      ∃ wrong, r.validate = .ok () ∧ e = .sourceFailed .catalog (.catalog wrong) ∧
        r.forced = true ∧
        R.may (((s.catalog r.hostVersion r.forced).run x).run k) ((.error wrong, x'), k') := by
  rw [resolve, resolveFrom] at h
  cases hv : r.validate with
  | error fault =>
    rw [hv] at h
    cases (Results.of_runs_pure h).1
    exact .inl ⟨fault, rfl, rfl⟩
  | ok =>
    rw [hv] at h
    dsimp only at h
    have hcaller : Tier.callerInput.applies r ({} : Progress).found = true := rfl
    rw [Tier.all, ask, if_pos hcaller] at h
    obtain ⟨known, x₁, k₁, hknown, hrest⟩ := Results.of_runs_bind h
    obtain ⟨rfl, rfl, rfl⟩ := Results.of_runs_pure hknown
    dsimp only at hrest
    split at hrest
    · cases (Results.of_runs_pure hrest).1
    cases hforced : r.forced with
    | false =>
      -- nothing is required of the tiers that are left
      have spared : ∀ t ∈ [Tier.identifierStore, .catalog, .namingHeuristic],
          t.isRequired r = false := by simp [Tier.isRequired, hforced]
      exact absurd ⟨_, _, _, _, hrest⟩
        (ask_of_spared (R := (R.withState κ).withState σ) spared)
    | true =>
      have hledger (c : Coordinate) : ¬ Tier.identifierStore.applies r c = true := by
        simp [Tier.applies, hforced]
      have hdirectory (c : Coordinate) : Tier.catalog.applies r c = true := rfl
      have hrequired : Tier.catalog.isRequired r = true := hforced
      have spared : ∀ t ∈ [Tier.namingHeuristic], t.isRequired r = false := by
        simp [Tier.isRequired]
      rw [ask, if_neg (hledger _), ask, if_pos (hdirectory _)] at hrest
      obtain ⟨answer, x₂, k₂, hasked, hgoes⟩ := Results.of_runs_bind hrest
      obtain ⟨listed, x₃, k₃, hcatalog, hfilled⟩ := Results.of_runs_bind hasked
      rw [hforced] at hcatalog
      cases listed with
      | error wrong =>
        obtain ⟨rfl, rfl, rfl⟩ := Results.of_runs_pure hfilled
        dsimp only at hgoes
        rw [hrequired, if_pos rfl] at hgoes
        obtain ⟨he, rfl, rfl⟩ := Results.of_runs_pure hgoes
        cases he
        exact .inr ⟨wrong, rfl, rfl, rfl, hcatalog⟩
      | ok listed =>
        have hanswer : ∃ filled, answer = .ok filled := by
          dsimp only at hfilled
          split at hfilled
          · exact ⟨_, (Results.of_runs_pure hfilled).1⟩
          · exact ⟨_, (Results.of_runs_pure hfilled).1⟩
        obtain ⟨filled, rfl⟩ := hanswer
        dsimp only at hgoes
        split at hgoes
        · cases (Results.of_runs_pure hgoes).1
        · exact absurd ⟨_, _, _, _, hgoes⟩
            (ask_of_spared (R := (R.withState κ).withState σ) spared)

end Resolution

namespace Command

/-- The exit code of a run that a cause stops. A database that cannot be opened is taken for a
trouble of no kind; a resolution does not tell a host version or a URL that is wrong from a
directory that is not to be had. -/
def Cause.exitCodeIn (task : Option Task) : Cause → Nat
  | .database => 1
  | .hostVersion => if task matches some (.resolve _) then 69 else 2
  | .catalogUrl => if task matches some (.resolve _) then 69 else 78
  | cause => cause.exitCode

variable {m : Type → Type} [Monad m] {R : Results m}

namespace Session

variable {w : Fetch.World (StateT FileTree m)} {s : Session} {t t' : FileTree}

def access (s : Session) : Fetch.Access :=
  .ofSettings s.settings

def hostFor? (s : Session) (o : ResolveOptions) : Option String :=
  o.hostVersion.or s.settings.defaultHostVersion

def MayGive (R : Results m) (w : Fetch.World (StateT FileTree m)) (s : Session) (given : String)
    (forced : Bool) (t : FileTree) (answer : Except CatalogError Catalog) : Prop :=
  ∃ t' client, R.may (((published w s.access given forced).run t).run (.ofAccess s.access))
    ((answer, t'), client)

def MayAnswer (R : Results m) (w : Fetch.World (StateT FileTree m)) (s : Session) (host : String)
    (o : ResolveOptions) (t : FileTree) (answer : Except Resolution.Error Resolution.Report)
    (t' : FileTree) : Prop :=
  ∃ client, R.may (((Resolution.resolve (s.sources (published w s.access)) (request host o)).run
    t).run (.ofAccess s.access)) ((answer, t'), client)

inductive Unanswered (R : Results m) (w : Fetch.World (StateT FileTree m)) (s : Session)
    (t : FileTree) (o : ResolveOptions) : Cause → Prop
  | noHost (unknown : s.hostFor? o = none) : Unanswered R w s t o .noHostVersion
  | blankKey {host} (known : s.hostFor? o = some host) (blank : Text.isBlankText o.key = true) :
      Unanswered R w s t o .blankKey
  | blankHost {host} (known : s.hostFor? o = some host) (keyed : Text.isBlankText o.key = false)
      (blank : Text.isBlankText host = true) : Unanswered R w s t o .noHostVersion
  | catalog {host t' wrong} (known : s.hostFor? o = some host)
      (refused : s.MayGive R w (Text.trim host) true t (.error wrong))
      (failed : s.MayAnswer R w host o t
        (.error (.sourceFailed .catalog (.catalog wrong))) t') :
      Unanswered R w s t o (s.access.cause host)
  | unresolved {host t' report} (known : s.hostFor? o = some host)
      (answered : s.MayAnswer R w host o t (.ok report) t') (empty : report.coordinate = none) :
      Unanswered R w s t o .unresolved
  | unread {host t' report c e} (known : s.hostFor? o = some host)
      (answered : s.MayAnswer R w host o t (.ok report) t') (found : report.coordinate = some c)
      (saved : o.save = true) (unread : (s.storage.records t').1 = .error e) :
      Unanswered R w s t o .storage
  | unsaved {host t' report c l old e} (known : s.hostFor? o = some host)
      (answered : s.MayAnswer R w host o t (.ok report) t') (found : report.coordinate = some c)
      (saved : o.save = true) (read : (s.storage.records t').1 = .ok l)
      (previous : Ledger.IsPrevious o.key l old) (refused : (s.storage.upsert
        { old with artifactId := c.artifactId, version := c.version } t').1 = .error e) :
      Unanswered R w s t o (s.storage.putCause
        { old with artifactId := c.artifactId, version := c.version } t')

inductive Fails (R : Results m) (w : Fetch.World (StateT FileTree m)) (s : Session)
    (t : FileTree) : Task → Cause → Prop
  | resolve {o cause} (unanswered : s.Unanswered R w t o cause) : Fails R w s t (.resolve o) cause
  | listRecords {e} (unread : (s.storage.records t).1 = .error e) :
      Fails R w s t .listRecords .storage
  | showRecord {key e} (missed : (s.storage.get key t).1 = .error e) :
      Fails R w s t (.showRecord key) (s.storage.lookupCause key t)
  | addRecord {r e} (refused : (s.storage.upsert r t).1 = .error e) :
      Fails R w s t (.addRecord r) (s.storage.putCause r t)
  | removeRecord {key e} (missed : (s.storage.remove key t).1 = .error e) :
      Fails R w s t (.removeRecord key) (s.storage.lookupCause key t)
  | catalog {given forced plugin e} (failed : s.MayGive R w given forced t (.error e)) :
      Fails R w s t (.catalog given forced plugin) (s.access.cause given)
  | showSettings {e} (unread : (s.storage.loadSettings t).1 = .error e) :
      Fails R w s t .showSettings .storage
  | unread {u e} (unread : (s.storage.loadSettings t).1 = .error e) :
      Fails R w s t (.changeSettings u) .storage
  | invalid {u stored e} (read : (s.storage.loadSettings t).1 = .ok stored)
      (invalid : (stored.merge u).validate = .error e) : Fails R w s t (.changeSettings u) .settings
  | unsaved {u stored e} (read : (s.storage.loadSettings t).1 = .ok stored)
      (valid : (stored.merge u).validate = .ok ())
      (refused : (s.storage.saveSettings (stored.merge u) t).1 = .error e) :
      Fails R w s t (.changeSettings u) .storage
  | resetSettings {e} (refused : (s.storage.saveSettings .defaults t).1 = .error e) :
      Fails R w s t .resetSettings .storage

theorem exitCode_of_published {a : Fetch.Access} {given : String} {forced : Bool} {e : CatalogError}
    {client : Catalog.Client}
    (h : R.may (((published w a given forced).run t).run (.ofAccess a)) ((.error e, t'), client)) :
    (Failure.ofCatalog e).exitCode = (a.cause given).exitCode := by
  obtain ⟨⟨⟨answer, client'⟩, t₁⟩, hcalled, hreturned⟩ := R.of_bind h
  cases R.of_pure hreturned
  exact Catalog.Client.exitCode_of_ask (R := R.withState FileTree) ⟨t, t', hcalled⟩

/-- Recording fails when the ledger cannot be read, or does not take the record. -/
theorem record_error {R : Results m} {key : String} {c : Coordinate} {f : Failure}
    (h : R.may ((s.record key c).run.run t) (.error f, t')) :
    (∃ e, (s.storage.records t).1 = .error e ∧ f.exitCode = Cause.storage.exitCode) ∨
      ∃ l old e, (s.storage.records t).1 = .ok l ∧ Ledger.IsPrevious key l old ∧
        (s.storage.upsert
          { old with artifactId := c.artifactId, version := c.version } t).1 = .error e ∧
        f = .ofLedger e := by
  cases hl : (s.storage.records t).1 with
  | error e =>
    have hget := Storage.get_of_unread hl key
    have hstorage := Storage.records_error hl
    rcases record_cases h with ⟨-, e', hget', -, hf⟩ | ⟨old, hold, -⟩
    · rw [hget] at hget'
      cases hget'
      cases hf
      exact .inl ⟨e, rfl, exitCode_of_storage hstorage⟩
    · rcases hold with hfound | ⟨⟨what, hmissing⟩, -⟩
      · rw [hget] at hfound
        cases hfound
      · rw [hget] at hmissing
        cases hmissing
        rcases hstorage with ⟨_, h⟩ | ⟨_, h⟩
        · cases h
        · cases h
  | ok l =>
    rcases record_cases h with ⟨-, e', hget', hother, -⟩ | ⟨old, hold, hput⟩
    -- a record that is merely missing is no reason to fail
    · obtain ⟨found, hget, -⟩ := Storage.get_of_records hl key
      rw [hget] at hget'
      cases found with
      | some x => cases hget'
      | none =>
        cases hget'
        exact absurd rfl (hother _)
    · have hresult := (of_ask hput).2
      cases hu : (s.storage.upsert
          { old with artifactId := c.artifactId, version := c.version } t).1 with
      | ok u =>
        rw [hu] at hresult
        cases hresult
      | error e =>
        rw [hu] at hresult
        cases hresult
        exact .inr ⟨l, old, e, rfl, Storage.isPrevious_of_get hold hl, hu, rfl⟩

/-- Nothing else but a blank key or host version makes a request of a command line invalid. -/
theorem validate_request {host : String} {o : ResolveOptions} {fault : Resolution.Request.Fault}
    (h : (request host o).validate = .error fault) :
    Text.isBlankText o.key = true ∨
      Text.isBlankText o.key = false ∧ Text.isBlankText host = true := by
  rw [Resolution.Request.validate] at h
  have hkey : (request host o).key = Text.trim o.key := rfl
  have hhost : (request host o).hostVersion = Text.trim host := rfl
  rw [hkey, hhost, Text.isBlankText_trim, Text.isBlankText_trim, Text.trim_trim] at h
  split at h
  · exact .inl ‹_›
  · split at h
    · exact .inr ⟨by simpa using ‹¬ Text.isBlankText o.key = true›, ‹_›⟩
    · rw [if_neg (not_not.mpr rfl)] at h
      cases h

theorem exitCodeIn_resolve (a : Fetch.Access) (host : String) (o : ResolveOptions) :
    (a.cause host).exitCodeIn (some (.resolve o)) = 69 := by
  rw [Fetch.Access.cause]
  split
  · split
    · rfl
    · rfl
  · rfl

theorem exitCodeIn_catalog (a : Fetch.Access) (given : String) (forced : Bool)
    (plugin : Option String) :
    (a.cause given).exitCodeIn (some (.catalog given forced plugin)) = (a.cause given).exitCode := by
  rw [Fetch.Access.cause]
  split
  · split
    · rfl
    · rfl
  · rfl

theorem exitCodeIn_storage (task : Option Task) (key : String) :
    (s.storage.lookupCause key t).exitCodeIn task = (s.storage.lookupCause key t).exitCode := by
  rw [Storage.lookupCause]
  split
  · rfl
  · rfl

theorem exitCodeIn_putCause (task : Option Task) (r : Ledger.Record) :
    (s.storage.putCause r t).exitCodeIn task = (s.storage.putCause r t).exitCode := by
  rw [Storage.putCause]
  split
  · rfl
  · split
    · rfl
    · rfl

/-- Resolving gives a report, unless it has a cause to fail. -/
theorem resolve_result {o : ResolveOptions} {result : Except Failure Resolution.Report}
    {client : Catalog.Client}
    (h : R.may ((((s.resolve (published w s.access) o).run).run t).run (.ofAccess s.access))
      ((result, t'), client)) :
    (∃ host report t₁, s.hostFor? o = some host ∧ s.MayAnswer R w host o t (.ok report) t₁ ∧
      result = .ok report) ∨
    ∃ f cause, result = .error f ∧ s.Unanswered R w t o cause ∧
      f.exitCode = cause.exitCodeIn (some (.resolve o)) := by
  rw [resolve, hostVersion] at h
  cases hhost : s.hostFor? o with
  | none =>
    rw [hostFor?] at hhost
    rw [hhost] at h
    cases (Results.of_runs_pure h).1
    exact .inr ⟨_, _, rfl, .noHost hhost, rfl⟩
  | some host =>
    rw [hostFor?] at hhost
    rw [hhost] at h
    dsimp only at h
    obtain ⟨answer, t₁, client₁, hasked, hrest⟩ := Results.of_runs_lift_bind h
    cases answer with
    | error e =>
      cases (Results.of_runs_pure hrest).1
      rcases Resolution.of_resolve_error hasked with
        ⟨fault, hfault, rfl⟩ | ⟨wrong, -, rfl, hforced, hrefused⟩
      · rcases validate_request hfault with hkey | ⟨hkey, hblank⟩
        · exact .inr ⟨_, _, rfl, .blankKey hhost hkey, rfl⟩
        · exact .inr ⟨_, _, rfl, .blankHost hhost hkey hblank, rfl⟩
      · rw [hforced] at hrefused
        exact .inr ⟨_, _, rfl, .catalog hhost ⟨_, _, hrefused⟩ ⟨_, hasked⟩,
          (exitCodeIn_resolve ..).symm⟩
    | ok report =>
      dsimp only at hrest
      cases hfound : report.coordinate with
      | none =>
        rw [hfound] at hrest
        exact .inl ⟨host, report, t₁, rfl, ⟨_, hasked⟩, (Results.of_runs_pure hrest).1⟩
      | some c =>
        rw [hfound] at hrest
        dsimp only at hrest
        split at hrest
        · rename_i hsave
          rcases of_work_bind (R := R.withState Catalog.Client) ⟨_, _, hrest⟩ with
            ⟨f, hrecorded, hf⟩ | ⟨_, t₂, -, hdone⟩
          · rcases record_error hrecorded with
              ⟨e, hunread, hcode⟩ | ⟨l, old, e, hread, hprevious, hrefused, rfl⟩
            · exact .inr ⟨f, _, hf, .unread hhost ⟨_, hasked⟩ hfound hsave hunread, hcode⟩
            · refine .inr ⟨_, _, hf, .unsaved hhost ⟨_, hasked⟩ hfound hsave hread hprevious
                hrefused, ?_⟩
              rw [exitCodeIn_putCause, Storage.exitCode_of_upsert hrefused]
          · exact .inl ⟨host, report, t₁, rfl, ⟨_, hasked⟩, (of_work_pure hdone).1⟩
        · exact .inl ⟨host, report, t₁, rfl, ⟨_, hasked⟩, (Results.of_runs_pure hrest).1⟩

theorem unresolved_of_failure {o : ResolveOptions} {report : Resolution.Report} {f : Failure}
    (failed : (resolved o report).failure = some f) :
    report.coordinate = none ∧ f = .unresolved o.key := by
  rw [resolved, Resolution.Report.isResolved] at failed
  cases hfound : report.coordinate with
  | none =>
    rw [hfound] at failed
    cases failed
    exact ⟨rfl, rfl⟩
  | some c =>
    rw [hfound] at failed
    cases failed

theorem failure_of_printing {α : Type} {R : Results m} {work : Work m α} {g : α → String}
    {outcome : Outcome} {f : Failure}
    (h : R.may ((printing (do return g (← work))).run t) (outcome, t'))
    (failed : outcome.failure = some f) : R.may (work.run.run t) (.error f, t') := by
  obtain ⟨result, hwork, hfailure⟩ := of_printing_return h
  rw [failed] at hfailure
  cases result with
  | ok a => cases hfailure
  | error f' =>
    cases hfailure
    exact hwork

theorem error_of_ask {α : Type} {R : Results m} {act : Storage.Action α} {f : Failure}
    (h : R.may ((ask act : Work m α).run.run t) (.error f, t')) :
    ∃ e, (act t).1 = .error e ∧ f = .ofLedger e := by
  have hresult := (of_ask h).2
  cases ha : (act t).1 with
  | ok a =>
    rw [ha] at hresult
    cases hresult
  | error e =>
    rw [ha] at hresult
    cases hresult
    exact ⟨e, rfl, rfl⟩

/-- Adding fails when the ledger does not take the record. -/
theorem add_error {R : Results m} {r : Ledger.Record} {f : Failure}
    (h : R.may ((s.add r).run.run t) (.error f, t')) :
    ∃ e, (s.storage.upsert r t).1 = .error e ∧
      f.exitCode = (s.storage.putCause r t).exitCode := by
  rw [add] at h
  split at h
  -- the command says so itself when the key is blank
  · rename_i hblank
    obtain ⟨hf, -⟩ := of_work_throw h
    cases hf
    refine ⟨.blankKey, ?_, ?_⟩
    · rw [Storage.upsert, if_pos hblank]
      rfl
    · rw [Storage.putCause, if_pos hblank]
      rfl
  · obtain ⟨e, he, rfl⟩ := error_of_ask h
    exact ⟨e, he, Storage.exitCode_of_upsert he⟩

theorem changeSettings_error {R : Results m} {u : Settings.Update} {f : Failure}
    (h : R.may ((s.changeSettings u).run.run t) (.error f, t')) :
    (∃ e, (s.storage.loadSettings t).1 = .error e ∧ f = .ofLedger e) ∨
      ∃ stored, (s.storage.loadSettings t).1 = .ok stored ∧
        ((∃ e, (stored.merge u).validate = .error e ∧ f = .ofSettings e) ∨
          (stored.merge u).validate = .ok () ∧
            ∃ e, (s.storage.saveSettings (stored.merge u) t).1 = .error e ∧ f = .ofLedger e) := by
  rcases of_work_bind h with ⟨f', hloaded, hf⟩ | ⟨stored, t₁, hloaded, hrest⟩
  · cases hf
    exact .inl (error_of_ask hloaded)
  · obtain ⟨rfl, hresult⟩ := of_ask hloaded
    have hfiles : (s.storage.loadSettings t).2 = t := s.storage.query_files Database.loadSettings t
    rw [hfiles] at hrest
    cases hl : (s.storage.loadSettings t).1 with
    | error e =>
      rw [hl] at hresult
      cases hresult
    | ok stored' =>
      rw [hl] at hresult
      cases hresult
      refine .inr ⟨stored, rfl, ?_⟩
      dsimp only at hrest
      cases hv : (stored.merge u).validate with
      | error e =>
        rw [hv] at hrest
        obtain ⟨hf, -⟩ := of_work_throw hrest
        cases hf
        exact .inl ⟨e, rfl, rfl⟩
      | ok =>
        rw [hv] at hrest
        refine .inr ⟨rfl, ?_⟩
        rcases of_work_bind hrest with ⟨f', hsaved, hf⟩ | ⟨_, t₂, -, hdone⟩
        · cases hf
          exact error_of_ask hsaved
        · cases (of_work_pure hdone).1

/-- A task that fails has a cause, and its exit code. -/
theorem exitCode_of_run {task : Task} {outcome : Outcome} {f : Failure} {client : Catalog.Client}
    (h : R.may (((s.run (published w s.access) task).run t).run (.ofAccess s.access))
      ((outcome, t'), client)) (failed : outcome.failure = some f) (other : task ≠ .paths) :
    ∃ cause, s.Fails R w t task cause ∧ f.exitCode = cause.exitCodeIn (some task) := by
  have hidden : (R.withState Catalog.Client).may ((s.run (published w s.access) task).run t)
      (outcome, t') := ⟨_, _, h⟩
  cases task with
  | resolve o =>
    obtain ⟨result, t₁, client₁, hresolved, hreturned⟩ := Results.of_runs_bind h
    rcases resolve_result hresolved with
      ⟨host, report, t₂, hhost, hanswer, rfl⟩ | ⟨f', cause, rfl, hcause, hcode⟩
    · cases (Results.of_runs_pure hreturned).1
      obtain ⟨hfound, rfl⟩ := unresolved_of_failure failed
      exact ⟨_, .resolve (.unresolved hhost hanswer hfound), rfl⟩
    · cases (Results.of_runs_pure hreturned).1
      cases failed
      exact ⟨cause, .resolve hcause, hcode⟩
  | listRecords =>
    obtain ⟨e, he, rfl⟩ := error_of_ask (failure_of_printing hidden failed)
    exact ⟨_, .listRecords he, exitCode_of_storage (Storage.records_error he)⟩
  | showRecord key =>
    obtain ⟨e, he, rfl⟩ := error_of_ask (failure_of_printing hidden failed)
    refine ⟨_, .showRecord he, ?_⟩
    rw [exitCodeIn_storage, Storage.exitCode_of_get he]
  | addRecord r =>
    obtain ⟨e, he, hcode⟩ := add_error (failure_of_printing hidden failed)
    refine ⟨_, .addRecord he, ?_⟩
    rw [exitCodeIn_putCause, hcode]
  | removeRecord key =>
    obtain ⟨e, he, rfl⟩ := error_of_ask (failure_of_printing hidden failed)
    refine ⟨_, .removeRecord he, ?_⟩
    rw [exitCodeIn_storage, Storage.exitCode_of_remove he]
  | catalog given forced plugin =>
    obtain ⟨answer, t₁, client₁, hasked, hreturned⟩ := Results.of_runs_bind h
    cases answer with
    | ok c =>
      cases (Results.of_runs_pure hreturned).1
      cases failed
    | error e =>
      cases (Results.of_runs_pure hreturned).1
      cases failed
      refine ⟨_, .catalog ⟨_, _, hasked⟩, ?_⟩
      rw [exitCode_of_published hasked, exitCodeIn_catalog]
  | showSettings =>
    obtain ⟨e, he, rfl⟩ := error_of_ask (failure_of_printing hidden failed)
    exact ⟨_, .showSettings he, exitCode_of_storage (Storage.loadSettings_error he)⟩
  | changeSettings u =>
    rw [run] at hidden
    split at hidden
    · obtain ⟨rfl, -⟩ := Results.of_run_pure hidden
      cases failed
    · rcases changeSettings_error (failure_of_printing hidden failed) with
        ⟨e, he, rfl⟩ | ⟨stored, hread, ⟨e, he, rfl⟩ | ⟨hvalid, e, he, rfl⟩⟩
      · exact ⟨_, .unread he, exitCode_of_storage (Storage.loadSettings_error he)⟩
      · exact ⟨_, .invalid hread he, rfl⟩
      · exact ⟨_, .unsaved hread hvalid he, exitCode_of_storage (Storage.saveSettings_error he)⟩
  | resetSettings =>
    obtain ⟨e, he, rfl⟩ := error_of_ask (failure_of_printing hidden failed)
    exact ⟨_, .resetSettings he, exitCode_of_storage (Storage.saveSettings_error he)⟩
  | paths => exact absurd rfl other

inductive Unstarted (asked : Option String) (around : DataRoot.Surroundings)
    (catalogUrl : Option String) (t : FileTree) : Cause → Prop
  | dataPath {e} (unmade : (DataRoot.resolve asked around t).1 = .error e) :
      Unstarted asked around catalogUrl t .dataPath
  | database {root t₁ e} (made : DataRoot.resolve asked around t = (.ok root, t₁))
      (unusable : (Storage.setUp root.database t₁).1 = .error e) :
      Unstarted asked around catalogUrl t .database
  | unread {root t₁ t₂ e} (made : DataRoot.resolve asked around t = (.ok root, t₁))
      (setUp : Storage.setUp root.database t₁ = (.ok (), t₂))
      (unread : (Storage.loadSettings ⟨root.database, root.ledger, .sqlite⟩ t₂).1 = .error e) :
      Unstarted asked around catalogUrl t .storage
  | invalid {root t₁ t₂ stored e} (made : DataRoot.resolve asked around t = (.ok root, t₁))
      (setUp : Storage.setUp root.database t₁ = (.ok (), t₂))
      (read : (Storage.loadSettings ⟨root.database, root.ledger, .sqlite⟩ t₂).1 = .ok stored)
      (invalid : (inForce stored catalogUrl).validate = .error e) :
      Unstarted asked around catalogUrl t .settings

variable {asked catalogUrl : Option String} {around : DataRoot.Surroundings} {trouble : Trouble}

theorem attempt_eq_error {ε α : Type} {explain : ε → Trouble} {act : ExceptT ε (StateM FileTree) α}
    (h : attempt explain act t = (.error trouble, t')) :
    ∃ e, (act t).1 = .error e ∧ trouble = explain e := by
  rw [attempt] at h
  split at h
  · cases h
  · rename_i hact
    cases h
    exact ⟨_, congrArg Prod.fst hact, rfl⟩

theorem exitCode_ofUnusable (e : Storage.Unusable) : (ofUnusable e).exitCode = 1 := by
  rw [ofUnusable]
  split
  · rfl
  · rfl

theorem start_error (h : start asked around catalogUrl t = (.error trouble, t')) :
    ∃ cause, Unstarted asked around catalogUrl t cause ∧
      ∀ task, trouble.exitCode = cause.exitCodeIn task := by
  rw [start, FileTree.run_bind] at h
  split at h
  · rename_i root t₁ hresolve
    have hmade := attempt_eq_ok hresolve
    simp only [FileTree.run_bind] at h
    split at h
    · rename_i t₂ hset
      have hsetUp := attempt_eq_ok hset
      split at h
      · rename_i stored t₃ hload
        have hread := congrArg Prod.fst (attempt_eq_ok hload)
        cases hv : (inForce stored catalogUrl).validate with
        | error e =>
          rw [hv] at h
          cases h
          exact ⟨_, .invalid hmade hsetUp hread hv, fun _ => rfl⟩
        | ok =>
          rw [hv] at h
          cases h
      · rename_i hload
        cases h
        obtain ⟨e, he, rfl⟩ := attempt_eq_error hload
        exact ⟨_, .unread hmade hsetUp he,
          fun _ => exitCode_of_storage (Storage.loadSettings_error he)⟩
    · rename_i hset
      cases h
      obtain ⟨e, he, rfl⟩ := attempt_eq_error hset
      exact ⟨_, .database hmade he, fun _ => exitCode_ofUnusable e⟩
  · rename_i hresolve
    cases h
    obtain ⟨e, he, rfl⟩ := attempt_eq_error hresolve
    exact ⟨_, .dataPath he, fun _ => rfl⟩

end Session

/-! ## Why a run fails -/

/-- Why what is asked for is not done, or not done wholly. The paths need no session, but the
directories of the data root. -/
inductive Stopped (R : Results m) (w : Fetch.World (StateT FileTree m)) (i : Invocation)
    (around : DataRoot.Surroundings) (t : FileTree) : Cause → Prop
  | paths {e} (asked : i.task = some .paths)
      (unmade : (DataRoot.resolve i.dataRoot around t).1 = .error e) :
      Stopped R w i around t .dataPath
  | unstarted {task cause} (asked : i.task = some task) (other : task ≠ .paths)
      (unstarted : Session.Unstarted i.dataRoot around i.catalogUrl t cause) :
      Stopped R w i around t cause
  | failed {task cause s t₁} (asked : i.task = some task) (other : task ≠ .paths)
      (started : Session.start i.dataRoot around i.catalogUrl t = (.ok s, t₁))
      (fails : s.Fails R w t₁ task cause) : Stopped R w i around t cause

variable {w : Fetch.World (StateT FileTree m)} {e : Environment} {arguments : List String}
  {t t' : FileTree} {text : String} {trouble : Trouble}

/-- A run that fails is stopped by a cause, and the exit code is that of the cause. -/
theorem exitCode_of_cause
    (hrun : R.may ((program w e arguments).run t) (.ran text (some trouble), t')) :
    ∃ i cause, Invocation.read (e.loaded t).bindings arguments = .ok i ∧
      Stopped R w i (e.loaded t).surroundings t cause ∧
      trouble.exitCode = cause.exitCodeIn i.task := by
  rcases program_cases hrun with ⟨r, -, hending, -⟩ | ⟨i, hread, htask⟩
  · cases hending
  refine ⟨i, ?_⟩
  rcases htask with ⟨-, hending, -⟩ | ⟨hpaths, hshown⟩ | ⟨task, htask, hother, hperformed⟩
  · cases hending
  · obtain ⟨-, hending⟩ := showPaths_cases hshown
    cases hmade : (DataRoot.resolve i.dataRoot (e.loaded t).surroundings t).1 with
    | ok root =>
      rw [hmade] at hending
      cases hending
    | error unmade =>
      rw [hmade] at hending
      cases hending
      exact ⟨.dataPath, hread, .paths hpaths hmade, rfl⟩
  · rcases perform_cases hperformed with
      ⟨trouble', hstart, hending⟩ | ⟨s, t₁, outcome, client, hstart, hdone, hending⟩
    · cases hending
      obtain ⟨cause, hcause, hcode⟩ := Session.start_error hstart
      exact ⟨cause, hread, .unstarted htask hother hcause, hcode _⟩
    · cases hf : outcome.failure with
      | none =>
        rw [hf] at hending
        cases hending
      | some f =>
        rw [hf] at hending
        cases hending
        obtain ⟨cause, hcause, hcode⟩ := Session.exitCode_of_run hdone hf hother
        refine ⟨cause, hread, .failed htask hother hstart hcause, ?_⟩
        rw [htask]
        exact hcode

/-- A record is asked for in a ledger that is still empty. -/
theorem exitCode_of_cause_missing :
    let e : Environment := { bindings := [("KPM_DATA_DIR", "/k")] }
    let asked := ["identifiers", "show", "stripe"]
    let trouble := Trouble.failure (.general "Not found: plugin 'stripe'")
    (runAlone e asked ⟨[], []⟩).ending = .ran "" (some trouble) ∧
      ∃ i cause, Invocation.read (e.loaded ⟨[], []⟩).bindings asked = .ok i ∧
        Stopped .ofId .empty i (e.loaded ⟨[], []⟩).surroundings ⟨[], []⟩ cause ∧
        trouble.exitCode = cause.exitCodeIn i.task := by
  intro e asked trouble
  have ending : (runAlone e asked ⟨[], []⟩).ending = .ran "" (some trouble) := by decide +kernel
  have ran := may_runAlone e asked ⟨[], []⟩
  rw [ending] at ran
  exact ⟨ending, exitCode_of_cause ran⟩

/-- The same host version, the same URL: what is no version or of no use ends a listing of the
catalog with a code of its own, and a resolution that must have the catalog with that of a
directory out of reach. And a file that is no database ends a run with the code of no cause. -/
theorem exitCode_differs_by_command :
    let e : Environment := { bindings := [("KPM_DATA_DIR", "/k")] }
    let code (arguments : List String) (t : FileTree) := (runAlone e arguments t).ending.exitCode
    code ["catalog", "abc", "--force"] ⟨[], []⟩ = 2 ∧
      code ["resolve", "stripe", "--host-version", "abc", "--force"] ⟨[], []⟩ = 69 ∧
      code ["--catalog-url", "ftp://a/b", "catalog", "0.24", "--force"] ⟨[], []⟩ = 78 ∧
      code ["--catalog-url", "ftp://a/b", "resolve", "stripe", "--host-version", "0.24", "--force"]
        ⟨[], []⟩ = 69 ∧
      code ["identifiers", "list"] ⟨[(["k"], .directory), (["k", "data"], .directory),
        (["k", "data", "kpm.db"], .file (.text "junk"))], []⟩ = 1 := by
  decide +kernel

end Command

end PluginResolution
