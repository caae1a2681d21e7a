import PluginResolution.Proofs.ArgumentOrigins
import PluginResolution.Proofs.StoredSettings

namespace PluginResolution.Command

open DataRoot (Opens Fresh stored?)

/-- The catalog URL that is written behind the command that changes the settings, whatever is
written before it. -/
def Level.passedUrl? (l : Level) : Option String :=
  if l.verb = .changeSettings then text? [l] .catalogUrl else none

namespace PastRun

def levels (run : PastRun) : List Level :=
  match readLevels run.bindings .program run.arguments {} with
  | .ok levels => levels
  | .error _ => []

def passedUrl? (run : PastRun) : Option String :=
  run.levels.getLast?.bind Level.passedUrl?

/-- If the run is to change the settings, a catalog URL is written behind that command, or none is
in force before it, neither written nor from a variable. -/
def Unmixed (run : PastRun) : Prop :=
  run.levels.getLast?.map (·.verb) = some .changeSettings →
    run.passedUrl? ≠ none ∨ Level.settled run.levels.dropLast .catalogUrl = none

end PastRun

section Reading

variable {levels : List Level} {l : Level}

/-- What counts at the last level is what is written there, or else what counts above. -/
theorem Level.settled_of_getLast (hlast : levels.getLast? = some l) {a : Argument}
    (hshared : a.isShared = true) :
    settled levels a = prefer (settled levels.dropLast a) (l.find? a) := by
  obtain ⟨above, habove⟩ := List.getLast?_eq_some_iff.mp hlast
  rw [settled, settled, hshared, habove, List.dropLast_concat]
  simp only [if_true]
  rw [List.foldl_append, List.foldl_cons, List.foldl_nil]

theorem Level.settled_singleton (l : Level) {a : Argument} (hshared : a.isShared = true) :
    settled [l] a = l.find? a := by
  rw [settled, hshared]
  cases hfind : l.find? a <;> simp [hfind, prefer]

theorem Level.prefer_written {above : Option Given} {g : Given} (h : g.origin = .written) :
    prefer above (some g) = some g := by
  cases above with
  | none => rfl
  | some a =>
    rw [prefer, h]
    simp

/-- A task is that of the last level. -/
theorem of_task {bindings : Variables} {arguments : List String} {i : Invocation} {task : Task}
    (hread : Invocation.read bindings arguments = .ok i) (htask : i.task = some task) :
    ∃ levels l, readLevels bindings .program arguments {} = .ok levels ∧
      levels.getLast? = some l ∧ Level.taskOf levels l.verb = some task := by
  obtain ⟨levels, hlevels, hinvocation⟩ := of_bind_ok hread
  cases hinvocation
  change Level.task? levels = _ at htask
  obtain ⟨l, hlast, htask⟩ := Option.bind_eq_some_iff.mp htask
  exact ⟨levels, l, hlevels, hlast, htask⟩

theorem Level.of_taskOf_changeSettings {v : Verb} {u : Settings.Update}
    (h : taskOf levels v = some (.changeSettings u)) : v = .changeSettings ∧ u = update levels := by
  cases v with
  | changeSettings =>
    cases h
    exact ⟨rfl, rfl⟩
  | _ => cases h

theorem Level.of_taskOf_resetSettings {v : Verb} (h : taskOf levels v = some .resetSettings) :
    v = .resetSettings := by
  cases v with
  | resetSettings => rfl
  | _ => cases h

end Reading

variable {run : PastRun} {i : Invocation} {stored new : Settings} {task : Task}

/-- In an unmixed run the catalog URL to be stored is the one written behind the command. -/
theorem PastRun.Unmixed.update (h : run.Unmixed) {u : Settings.Update}
    (hread : Invocation.read run.bindings run.arguments = .ok i)
    (htask : i.task = some (.changeSettings u)) : u.catalogUrl = .ofOption run.passedUrl? := by
  obtain ⟨levels, l, hlevels, hlast, htaskOf⟩ := of_task hread htask
  obtain ⟨hverb, rfl⟩ := Level.of_taskOf_changeSettings htaskOf
  have hrun : run.levels = levels := by rw [PastRun.levels, hlevels]
  have hpassed : run.passedUrl? = l.passedUrl? := by
    rw [PastRun.passedUrl?, hrun, hlast, Option.bind_some]
  have hsame : Level.settled levels .catalogUrl = Level.settled [l] .catalogUrl := by
    rw [Level.settled_of_getLast hlast rfl, Level.settled_singleton l rfl]
    cases hfind : l.find? .catalogUrl with
    | some g =>
      have hwritten := written_of_changeSettings hlevels (List.mem_of_getLast? hlast) hverb hfind
      rw [Level.prefer_written hwritten]
    | none =>
      -- nothing is written behind the command, so nothing was in force above
      have hnone : run.passedUrl? = none := by
        rw [hpassed, Level.passedUrl?, if_pos hverb, Level.text?, Level.datum?,
          Level.settled_singleton l rfl, hfind]
        rfl
      have hunmixed := h (by rw [hrun, hlast, Option.map_some, hverb])
      rw [hrun] at hunmixed
      rw [hunmixed.resolve_left fun hne => hne hnone]
      rfl
  have hurl : Level.text? levels .catalogUrl = l.passedUrl? := by
    rw [Level.passedUrl?, if_pos hverb, Level.text?, Level.text?, Level.datum?, Level.datum?, hsame]
  rw [hpassed, ← hurl]
  rfl

/-- The catalog URL that is stored after a task of an unmixed run: the old one, the default if the
settings are reset, or the one that is written behind the command. -/
theorem PastRun.Unmixed.catalogUrl (h : run.Unmixed) {failure : Option Failure}
    (hread : Invocation.read run.bindings run.arguments = .ok i) (htask : i.task = some task)
    (hstep : SettingsStep stored task failure new) :
    new.catalogUrl = stored.catalogUrl ∨
      (new.catalogUrl = Settings.defaults.catalogUrl ∧
        run.levels.getLast?.map (·.verb) = some .resetSettings) ∨
      ∃ url, run.passedUrl? = some url ∧ new.catalogUrl = some url := by
  cases hstep with
  | kept => exact .inl rfl
  | reset =>
    obtain ⟨levels, l, hlevels, hlast, htaskOf⟩ := of_task hread htask
    refine .inr (.inl ⟨rfl, ?_⟩)
    rw [PastRun.levels, hlevels]
    simp only [hlast, Option.map_some, Level.of_taskOf_resetSettings htaskOf]
  | changed =>
    have hupdate := h.update hread htask
    rw [Settings.merge, hupdate]
    cases hpassed : run.passedUrl? with
    | none => exact .inl rfl
    | some url => exact .inr (.inr ⟨url, rfl, rfl⟩)

variable {m : Type → Type} [Monad m] {R : Results m} {root : String} {t₀ t : FileTree}
  {past : List PastRun}

/-- Over any runs at a data root where there was no database, none of which changes the settings
under a catalog URL that was given before that command: the stored catalog URL is the default or was
written behind the command in one of the runs. A run that neither passes a catalog URL so nor resets
the settings leaves it as it was. -/
theorem catalogUrl_of_runs (fresh : Fresh root t₀) (h : Runs R root t₀ past t)
    (unmixed : ∀ run ∈ past, run.Unmixed) :
    (∃ stored, stored? root t = some stored ∧
      (stored.catalogUrl = Settings.defaults.catalogUrl ∨
        ∃ run ∈ past, ∃ url, run.passedUrl? = some url ∧ stored.catalogUrl = some url)) ∧
    ∀ run ∈ past, run.passedUrl? = none →
      run.levels.getLast?.map (·.verb) ≠ some .resetSettings →
        (stored? root run.after).map (·.catalogUrl) =
          (stored? root run.before).map (·.catalogUrl) := by
  -- on the runs, the last of which changes what the ones before have stored
  induction h with
  | start =>
    obtain ⟨t₁, hopens⟩ := fresh.opens
    refine ⟨⟨.defaults, hopens.stored_eq rfl, .inl rfl⟩, ?_⟩
    exact fun run hrun => absurd hrun List.not_mem_nil
  | @next past w t t' e arguments ending earlier quiet rooted ran ih =>
    obtain ⟨⟨stored, hstored, hurl⟩, hkept⟩ := ih fun run hrun =>
      unmixed run (List.mem_append_left _ hrun)
    obtain ⟨d, t₁, old, hopens, hd, -⟩ := earlier.opens fresh
    obtain ⟨d', t₂, new, hopens', hd', hstep⟩ := program_step quiet hopens hd rooted ran
    have hbefore := hopens.stored_eq hd
    have hafter := hopens'.stored_eq hd'
    rw [hbefore] at hstored
    cases hstored
    let run : PastRun := ⟨e, arguments, t, ending, t'⟩
    have hrun : run ∈ past ++ [run] := List.mem_append_right _ (List.mem_singleton_self run)
    have hnew : new.catalogUrl = stored.catalogUrl ∨
        (new.catalogUrl = Settings.defaults.catalogUrl ∧
          run.levels.getLast?.map (·.verb) = some .resetSettings) ∨
        ∃ url, run.passedUrl? = some url ∧ new.catalogUrl = some url := by
      rcases hstep with rfl | ⟨-, i, task, hread, htask, hstep⟩
      · exact .inl rfl
      · exact (unmixed run hrun).catalogUrl hread htask hstep
    refine ⟨⟨new, hafter, ?_⟩, ?_⟩
    · rcases hnew with hsame | ⟨hdefault, -⟩ | ⟨url, hpassed, hset⟩
      · rw [hsame]
        refine hurl.imp_right ?_
        rintro ⟨r, hr, url, hpassed, hset⟩
        exact ⟨r, List.mem_append_left _ hr, url, hpassed, hset⟩
      · exact .inl hdefault
      · exact .inr ⟨run, hrun, url, hpassed, hset⟩
    · intro r hr hnone hverb
      rcases List.mem_append.mp hr with hr | hr
      · exact hkept r hr hnone hverb
      obtain rfl := List.mem_singleton.mp hr
      have hsame : new.catalogUrl = stored.catalogUrl := by
        rcases hnew with hsame | ⟨-, hreset⟩ | ⟨url, hpassed, -⟩
        · exact hsame
        · exact absurd hreset hverb
        · rw [hnone] at hpassed
          cases hpassed
      rw [hafter, hbefore, Option.map_some, Option.map_some, hsame]

/-- The variable names another catalog URL, but one is written behind the command. -/
theorem catalogUrl_of_runs_passed :
    let run := runAlone { bindings := [("KPM_DATA_DIR", "/k"), ("KPM_CATALOG_URL", "file:///env.yml")] }
      ["config", "set", "--catalog-url", "file:///own.yml"] ⟨[], []⟩
    run.passedUrl? = some "file:///own.yml" ∧ ∃ stored, stored? "/k" run.after = some stored ∧
      (stored.catalogUrl = Settings.defaults.catalogUrl ∨
        stored.catalogUrl = some "file:///own.yml") := by
  intro run
  have fresh : Fresh "/k" ⟨[], []⟩ := ⟨_, _, rfl, rfl, rfl⟩
  have read : Invocation.read run.bindings run.arguments = .ok
      { dataRoot := some "/k", catalogUrl := some "file:///own.yml",
        task := some (.changeSettings { catalogUrl := .set "file:///own.yml" }) } := by
    decide +kernel
  have passed : run.passedUrl? = some "file:///own.yml" := by decide +kernel
  have unmixed : ∀ r ∈ [run], r.Unmixed := by
    intro r hr _
    obtain rfl := List.mem_singleton.mp hr
    rw [passed]
    exact .inl (by simp)
  have runs : Runs .ofId "/k" ⟨[], []⟩ [run] run.after := runs_alone .start read rfl
  obtain ⟨⟨stored, hstored, hurl⟩, -⟩ := catalogUrl_of_runs fresh runs unmixed
  refine ⟨passed, stored, hstored, hurl.imp_right ?_⟩
  rintro ⟨r, hr, url, hpassed, hset⟩
  obtain rfl := List.mem_singleton.mp hr
  rw [passed] at hpassed
  cases hpassed
  exact hset

/-- The retries are changed under a catalog URL for the run: both are stored, though no catalog URL
is written behind the command. -/
theorem other_settings_store_override :
    let run := runAlone { bindings := [("KPM_DATA_DIR", "/k")] }
      ["--catalog-url", "file:///override.yml", "config", "set", "--max-retries", "5"] ⟨[], []⟩
    run.passedUrl? = none ∧ stored? "/k" run.before = some .defaults ∧
      stored? "/k" run.after = some { Settings.defaults with
        catalogUrl := some "file:///override.yml", maxRetries := some 5 } := by
  decide +kernel

end PluginResolution.Command
