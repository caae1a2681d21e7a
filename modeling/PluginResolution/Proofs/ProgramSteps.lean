import PluginResolution.Command.Program
import PluginResolution.Proofs.SessionSteps

namespace PluginResolution

open DataRoot (Opened Opens)

namespace DataRoot

variable {root : String} {t t' : FileTree} {d : Database} {stored : Settings}

def stored? (root : String) (t : FileTree) : Option Settings :=
  match below root t with
  | (.error _, _) => none
  | (.ok r, t) => match Storage.setUp r.database t with
    | (.error _, _) => none
    | (.ok (), t) => ((⟨r.database, r.ledger, .sqlite⟩ : Storage).loadSettings t).1.toOption

theorem Opens.stored_eq (h : Opens root t d t') (hd : d.loadSettings = .ok stored) :
    stored? root t = some stored := by
  obtain ⟨t₁, hbelow, hset⟩ := h.opening
  have hload := h.opened.loadSettings (Storage.isAt_ofRoot root .sqlite)
  rw [hd] at hload
  rw [stored?, hbelow]
  simp only [hset, hload]
  rfl

end DataRoot

namespace Command

variable {m : Type → Type} [Monad m] {R : Results m} {w : Fetch.World (StateT FileTree m)}
  {e : Environment} {arguments : List String} {i : Invocation} {task : Task}
  {around : DataRoot.Surroundings} {ending : Ending} {root : String} {t t' : FileTree}

section Cases

/-- A run is refused, shows the help or paths, or performs a task. -/
theorem program_cases (hrun : R.may ((program w e arguments).run t) (ending, t')) :
    (∃ r, Invocation.read (e.loaded t).bindings arguments = .error r ∧
      ending = .refused r ∧ t' = t) ∨
    ∃ i, Invocation.read (e.loaded t).bindings arguments = .ok i ∧
      ((i.task = none ∧ ending = .help ∧ t' = t) ∨
        (i.task = some .paths ∧
          R.may ((showPaths i.dataRoot (e.loaded t).surroundings).run t) (ending, t')) ∨
        ∃ task, i.task = some task ∧ task ≠ .paths ∧
          R.may ((perform w i (e.loaded t).surroundings task).run t) (ending, t')) := by
  change R.may (program w e arguments t) (ending, t') at hrun
  rw [program] at hrun
  cases hread : Invocation.read (e.loaded t).bindings arguments with
  | error r =>
    simp only [hread] at hrun
    cases R.of_pure hrun
    exact .inl ⟨r, rfl, rfl, rfl⟩
  | ok i =>
    simp only [hread] at hrun
    refine .inr ⟨i, rfl, ?_⟩
    cases htask : i.task with
    | none =>
      simp only [htask] at hrun
      cases R.of_pure hrun
      exact .inl ⟨rfl, rfl, rfl⟩
    | some task =>
      cases task with
      | paths =>
        simp only [htask] at hrun
        exact .inr (.inl ⟨rfl, hrun⟩)
      | _ =>
        simp only [htask] at hrun
        exact .inr (.inr ⟨_, rfl, by simp, hrun⟩)

theorem showPaths_cases {asked : Option String}
    (hrun : R.may ((showPaths asked around).run t) (ending, t')) :
    t' = (DataRoot.resolve asked around t).2 ∧
      ending = match (DataRoot.resolve asked around t).1 with
        | .ok d => .ran (d.listing ++ "\n") none
        | .error e => .ran "" (some (.failure (.ofDataRoot e))) := by
  obtain ⟨answer, t₁, hmade, hrest⟩ := Results.of_run_bind hrun
  have hpair : (answer, t₁) = DataRoot.resolve asked around t := R.of_pure hmade
  rw [← hpair]
  cases answer with
  | ok d =>
    obtain ⟨rfl, rfl⟩ := Results.of_run_pure hrest
    exact ⟨rfl, rfl⟩
  | error e =>
    obtain ⟨rfl, rfl⟩ := Results.of_run_pure hrest
    exact ⟨rfl, rfl⟩

/-- A task is performed in a session and with a new client, unless no session can be started. -/
theorem perform_cases (hrun : R.may ((perform w i around task).run t) (ending, t')) :
    (∃ trouble, Session.start i.dataRoot around i.catalogUrl t = (.error trouble, t') ∧
      ending = .ran "" (some trouble)) ∨
    ∃ s t₁ outcome client, Session.start i.dataRoot around i.catalogUrl t = (.ok s, t₁) ∧
      R.may (((s.run (Session.published w (.ofSettings s.settings)) task).run t₁).run
        (.ofAccess (.ofSettings s.settings))) ((outcome, t'), client) ∧
      ending = .ran outcome.text (outcome.failure.map .failure) := by
  obtain ⟨answer, t₁, hstarted, hrest⟩ := Results.of_run_bind hrun
  have hpair : (answer, t₁) = Session.start i.dataRoot around i.catalogUrl t := R.of_pure hstarted
  rw [← hpair]
  cases answer with
  | error trouble =>
    obtain ⟨rfl, rfl⟩ := Results.of_run_pure hrest
    exact .inl ⟨trouble, rfl, rfl⟩
  | ok s =>
    obtain ⟨⟨⟨outcome, t₂⟩, client⟩, hdone, hreturned⟩ := R.of_bind hrest
    cases R.of_pure hreturned
    exact .inr ⟨s, t₁, outcome, client, rfl, hdone, rfl⟩

end Cases

def WorksAt (root : String) (e : Environment) (arguments : List String) (t : FileTree) : Prop :=
  ∀ i, Invocation.read (e.loaded t).bindings arguments = .ok i →
    DataRoot.choose i.dataRoot (e.loaded t).surroundings = .ok root

variable {d : Database} {t₁ : FileTree} {stored : Settings}

theorem showPaths_step (h : Opens root t d t₁) {asked : Option String}
    (chosen : DataRoot.choose asked around = .ok root)
    (hrun : R.may ((showPaths asked around).run t) (ending, t')) : Opens root t' d t₁ := by
  obtain ⟨rfl, -⟩ := showPaths_cases hrun
  obtain ⟨t₂, hbelow, -⟩ := h.opening
  have hresolve : DataRoot.resolve asked around t = (.ok (.ofRoot root), t₂) := by
    rw [DataRoot.resolve, chosen]
    exact hbelow
  rw [hresolve]
  exact h.of_below hbelow

/-- A task that is performed leaves the root as one that opens. -/
theorem perform_step (hw : w.Quiet R) (h : Opens root t d t₁) (hd : d.loadSettings = .ok stored)
    (chosen : DataRoot.choose i.dataRoot around = .ok root)
    (hrun : R.may ((perform w i around task).run t) (ending, t')) :
    ∃ d' t₂ new, Opens root t' d' t₂ ∧ d'.loadSettings = .ok new ∧
      (new = stored ∨ SettingsStep stored task none new ∧ ending.exitCode = 0) := by
  have hstart := Session.start_of_opens h hd i.catalogUrl chosen
  rcases perform_cases hrun with
    ⟨trouble, hfailed, -⟩ | ⟨s, t₂, outcome, client, hstarted, hdone, rfl⟩
  · -- the database is there even if the settings in force are invalid
    have ht : t' = t₁ := by
      rw [hfailed] at hstart
      split at hstart
      · exact congrArg Prod.snd hstart
      · cases hstart
    subst ht
    obtain ⟨t₃, hopens⟩ := h.opened.opens
    exact ⟨d, t₃, stored, hopens, hd, .inl rfl⟩
  · have hs : s = .ofStored root stored i.catalogUrl ∧ t₂ = t₁ := by
      rw [hstarted] at hstart
      split at hstart
      · cases hstart
      · cases hstart
        exact ⟨rfl, rfl⟩
    obtain ⟨rfl, rfl⟩ := hs
    obtain ⟨d', new, hopened, hload, hstep⟩ := Session.run_step h.opened
      ⟨rfl, Storage.isAt_ofRoot root _⟩ (Session.quiet_published hw _) hd ⟨_, client, hdone⟩
    obtain ⟨t₃, hopens⟩ := hopened.opens
    refine ⟨d', t₃, new, hopens, hload, ?_⟩
    -- no task changes the settings and then fails
    cases hf : outcome.failure with
    | none =>
      rw [hf] at hstep
      exact .inr ⟨hstep, rfl⟩
    | some failure =>
      rw [hf] at hstep
      cases hstep
      exact .inl rfl

/-- One run leaves the root as one that opens. The settings are others afterwards only if the run
has succeeded in a task. -/
theorem program_step (hw : w.Quiet R) (h : Opens root t d t₁) (hd : d.loadSettings = .ok stored)
    (rooted : WorksAt root e arguments t)
    (hrun : R.may ((program w e arguments).run t) (ending, t')) :
    ∃ d' t₂ new, Opens root t' d' t₂ ∧ d'.loadSettings = .ok new ∧
      (new = stored ∨ ending.exitCode = 0 ∧ ∃ i task,
        Invocation.read (e.loaded t).bindings arguments = .ok i ∧ i.task = some task ∧
          SettingsStep stored task none new) := by
  rcases program_cases hrun with ⟨r, -, -, rfl⟩ | ⟨i, hread, htask⟩
  · exact ⟨d, t₁, stored, h, hd, .inl rfl⟩
  have chosen := rooted i hread
  rcases htask with ⟨-, -, rfl⟩ | ⟨-, hpaths⟩ | ⟨task, htask, -, hperformed⟩
  · exact ⟨d, t₁, stored, h, hd, .inl rfl⟩
  · exact ⟨d, t₁, stored, showPaths_step h chosen hpaths, hd, .inl rfl⟩
  · obtain ⟨d', t₂, new, hopens, hload, hstep⟩ := perform_step hw h hd chosen hperformed
    refine ⟨d', t₂, new, hopens, hload, hstep.imp_right ?_⟩
    rintro ⟨hstep, hcode⟩
    exact ⟨hcode, i, task, hread, htask, hstep⟩

structure PastRun where
  environment : Environment
  arguments : List String
  before : FileTree
  ending : Ending
  after : FileTree

def PastRun.bindings (run : PastRun) : Variables :=
  (run.environment.loaded run.before).bindings

/-- Runs of the program at a data root, one after the other, in worlds that leave files alone. -/
inductive Runs {m : Type → Type} [Monad m] (R : Results m) (root : String) (t₀ : FileTree) :
    List PastRun → FileTree → Prop
  | start : Runs R root t₀ [] t₀
  | next {past : List PastRun} {w : Fetch.World (StateT FileTree m)} {t t' : FileTree}
      {e : Environment} {arguments : List String} {ending : Ending}
      (earlier : Runs R root t₀ past t) (quiet : w.Quiet R) (rooted : WorksAt root e arguments t)
      (ran : R.may ((program w e arguments).run t) (ending, t')) :
      Runs R root t₀ (past ++ [⟨e, arguments, t, ending, t'⟩]) t'

def runAlone (e : Environment) (arguments : List String) (t : FileTree) : PastRun :=
  let result := (program (m := Id) .empty e arguments).run t
  ⟨e, arguments, t, result.1, result.2⟩

theorem may_runAlone (e : Environment) (arguments : List String) (t : FileTree) :
    Results.ofId.may ((program .empty e arguments).run t)
      ((runAlone e arguments t).ending, (runAlone e arguments t).after) :=
  rfl

theorem runs_alone {past : List PastRun} {t₀ t : FileTree} (earlier : Runs .ofId root t₀ past t)
    {i : Invocation} (hread : Invocation.read (e.loaded t).bindings arguments = .ok i)
    (chosen : DataRoot.choose i.dataRoot (e.loaded t).surroundings = .ok root) :
    Runs .ofId root t₀ (past ++ [runAlone e arguments t]) (runAlone e arguments t).after := by
  refine .next earlier (Fetch.quiet_empty _) (fun i' hread' => ?_) rfl
  rw [hread] at hread'
  cases hread'
  exact chosen

end Command

end PluginResolution
