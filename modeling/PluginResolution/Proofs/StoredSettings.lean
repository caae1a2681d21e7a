import Mathlib.Control.Monad.Basic
import PluginResolution.Proofs.ProgramSteps

namespace PluginResolution.Command

open DataRoot (Opens Fresh stored?)

/-- The settings are to be changed, but no setting is written behind the command. -/
def Level.setsNothing (l : Level) : Bool :=
  l.verb = .changeSettings && Verb.changeSettings.ownForms.all fun f => (l.find? f.argument).isNone

/-- No setting is written, and no catalog URL is in force that the run was given elsewhere. -/
def PastRun.SetsNothing (run : PastRun) : Prop :=
  ∃ levels l, readLevels run.bindings .program run.arguments {} = .ok levels ∧
    levels.getLast? = some l ∧ l.setsNothing = true ∧ Level.text? levels .catalogUrl = none

variable {m : Type → Type} [Monad m] {R : Results m} {root : String} {t t₀ : FileTree}
  {stored new : Settings} {task : Task} {past : List PastRun}

section Steps

theorem SettingsStep.valid {failure : Option Failure} (h : SettingsStep stored task failure new)
    (valid : stored.validate = .ok ()) : new.validate = .ok () := by
  cases h with
  | kept => exact valid
  | changed asked hnew => exact hnew
  | reset => exact Settings.validate_defaults

/-- After any runs the root opens, and its settings are valid. -/
theorem Runs.opens (fresh : Fresh root t₀) (h : Runs R root t₀ past t) :
    ∃ d t₁ stored, Opens root t d t₁ ∧ d.loadSettings = .ok stored ∧ stored.validate = .ok () := by
  -- on the runs; at first the settings are the defaults
  induction h with
  | start =>
    obtain ⟨t₁, hopens⟩ := fresh.opens
    exact ⟨_, t₁, .defaults, hopens, rfl, Settings.validate_defaults⟩
  | next earlier quiet rooted ran ih =>
    obtain ⟨d, t₁, stored, hopens, hd, hvalid⟩ := ih
    obtain ⟨d', t₂, new, hopens', hd', hstep⟩ := program_step quiet hopens hd rooted ran
    refine ⟨d', t₂, new, hopens', hd', ?_⟩
    rcases hstep with rfl | ⟨-, i, task, -, -, hstep⟩
    · exact hvalid
    · exact hstep.valid hvalid

end Steps

section NothingToSet

/-- An argument that is not shared counts only if it is written at the last level. -/
theorem Level.settled_of_last {levels : List Level} {l : Level} {a : Argument}
    (hlast : levels.getLast? = some l) (hown : a.isShared = false) :
    settled levels a = l.find? a := by
  rw [settled, hown, hlast]
  rfl

theorem Level.values_of_unsettled {levels : List Level} {a : Argument}
    (h : settled levels a = none) :
    text? levels a = none ∧ natural? levels a = none ∧ backend? levels a = none ∧
      isGiven levels a = false := by
  simp [text?, natural?, backend?, isGiven, datum?, h]

/-- Where no argument of the last level is written and no catalog URL is given, no setting is to
be changed. -/
theorem Level.update_isEmpty {levels : List Level} {l : Level}
    (hlast : levels.getLast? = some l) (hnothing : l.setsNothing = true)
    (hurl : text? levels .catalogUrl = none) : (update levels).isEmpty = true := by
  have hnone : ∀ f ∈ Verb.changeSettings.ownForms, l.find? f.argument = none := by
    intro f hf
    have hall := (Bool.and_eq_true_iff.mp hnothing).2
    simpa using List.all_eq_true.mp hall f hf
  have hvalues (a : Argument) (ha : a.isShared = false)
      (hmem : a ∈ Verb.changeSettings.ownForms.map (·.argument)) :
      text? levels a = none ∧ natural? levels a = none ∧ backend? levels a = none ∧
        isGiven levels a = false := by
    obtain ⟨f, hf, rfl⟩ := List.mem_map.mp hmem
    refine values_of_unsettled ?_
    rw [settled_of_last hlast ha]
    exact hnone f hf
  obtain ⟨-, httl, -, -⟩ := hvalues .cacheTtl rfl (by decide)
  obtain ⟨-, htimeout, -, -⟩ := hvalues .requestTimeout rfl (by decide)
  obtain ⟨-, hretries, -, -⟩ := hvalues .maxRetries rfl (by decide)
  obtain ⟨-, -, hbackend, -⟩ := hvalues .backend rfl (by decide)
  obtain ⟨hhost, -, -, -⟩ := hvalues .defaultHostVersion rfl (by decide)
  obtain ⟨-, -, -, hnohost⟩ := hvalues .noDefaultHostVersion rfl (by decide)
  rw [update, hurl, httl, htimeout, hretries, hbackend, hhost, hnohost]
  rfl

/-- Such a run leaves the settings alone. -/
theorem PastRun.SetsNothing.kept {run : PastRun} (h : run.SetsNothing) {i : Invocation}
    {failure : Option Failure} (hread : Invocation.read run.bindings run.arguments = .ok i)
    (htask : i.task = some task) (hstep : SettingsStep stored task failure new) :
    new = stored := by
  obtain ⟨levels, l, hlevels, hlast, hnothing, hurl⟩ := h
  have hverb : l.verb = .changeSettings := by
    simpa using (Bool.and_eq_true_iff.mp hnothing).1
  have hasked : i.task = some (.changeSettings (Level.update levels)) := by
    rw [Invocation.read, hlevels] at hread
    cases hread
    change Level.task? levels = _
    rw [Level.task?, hlast, Option.bind_some, hverb]
    rfl
  rw [htask] at hasked
  cases hasked
  cases hstep with
  | kept => rfl
  | changed asked =>
    rw [Level.update_isEmpty hlast hnothing hurl] at asked
    cases asked

end NothingToSet

/-- Over any runs at a data root where there was no database: the stored settings can be loaded and
are valid. A run that fails leaves them as they were, and so does one that is to change them but is
given nothing to set, neither behind the command nor elsewhere. A session cannot fail to start but
for a blank catalog URL that it is given itself. -/
theorem settings_of_runs (fresh : Fresh root t₀) (h : Runs R root t₀ past t) :
    (∃ stored, stored? root t = some stored ∧ stored.validate = .ok ()) ∧
    (∀ run ∈ past, run.ending.exitCode ≠ 0 ∨ run.SetsNothing →
      stored? root run.after = stored? root run.before) ∧
    (∀ asked around catalogUrl trouble, DataRoot.choose asked around = .ok root →
      (Session.start asked around catalogUrl t).1 = .error trouble →
        trouble = .failure (.ofSettings .emptyCatalogUrl) ∧
          catalogUrl.any Text.isBlankText = true) := by
  refine ⟨?_, ?_, ?_⟩
  · obtain ⟨d, t₁, stored, hopens, hd, hvalid⟩ := h.opens fresh
    exact ⟨stored, hopens.stored_eq hd, hvalid⟩
  · induction h with
    | start => exact fun run hrun => absurd hrun List.not_mem_nil
    | next earlier quiet rooted ran ih =>
      intro run hrun
      rcases List.mem_append.mp hrun with hrun | hrun
      · exact ih run hrun
      obtain rfl := List.mem_singleton.mp hrun
      intro hwithout
      obtain ⟨d, t₁, stored, hopens, hd, -⟩ := earlier.opens fresh
      obtain ⟨d', t₂, new, hopens', hd', hstep⟩ := program_step quiet hopens hd rooted ran
      have hnew : new = stored := by
        rcases hstep with rfl | ⟨hcode, i, task, hread, htask, hstep⟩
        · rfl
        · rcases hwithout with hfails | hnothing
          · exact absurd hcode hfails
          · exact hnothing.kept hread htask hstep
      rw [hopens'.stored_eq hd', hopens.stored_eq hd, hnew]
  · intro asked around catalogUrl trouble chosen hfailed
    obtain ⟨d, t₁, stored, hopens, hd, hvalid⟩ := h.opens fresh
    rw [Session.start_of_opens hopens hd catalogUrl chosen,
      Session.validate_inForce catalogUrl hvalid] at hfailed
    cases hblank : catalogUrl.any Text.isBlankText with
    | true =>
      rw [hblank] at hfailed
      cases hfailed
      exact ⟨rfl, rfl⟩
    | false =>
      rw [hblank] at hfailed
      cases hfailed

/-- Too many retries are asked for. -/
theorem settings_of_runs_invalid :
    let run := runAlone { bindings := [("KPM_DATA_DIR", "/k")] }
      ["config", "set", "--max-retries", "11"] ⟨[], []⟩
    run.ending.exitCode = 78 ∧ stored? "/k" run.after = some .defaults := by
  intro run
  have fresh : Fresh "/k" ⟨[], []⟩ := ⟨_, _, rfl, rfl, rfl⟩
  have read : Invocation.read run.bindings run.arguments = .ok
      { dataRoot := some "/k", task := some (.changeSettings { maxRetries := .set 11 }) } := by
    decide +kernel
  have runs : Runs .ofId "/k" ⟨[], []⟩ [run] run.after := runs_alone .start read rfl
  have code : run.ending.exitCode = 78 := by decide +kernel
  have before : stored? "/k" run.before = some .defaults := by decide +kernel
  have fails : run.ending.exitCode ≠ 0 ∨ run.SetsNothing := .inl (by rw [code]; decide)
  refine ⟨code, ?_⟩
  rw [(settings_of_runs fresh runs).2.1 run (List.mem_singleton_self run) fails, before]

/-- Nothing is written behind the command, but a catalog URL is in force for the run: it is
stored. -/
theorem nothing_to_set_stores_override :
    let run := runAlone { bindings := [("KPM_DATA_DIR", "/k")] }
      ["--catalog-url", "file:///override.yml", "config", "set"] ⟨[], []⟩
    ((readLevels run.bindings .program run.arguments {}).toOption.bind (·.getLast?)).any
        Level.setsNothing = true ∧
      stored? "/k" run.before = some .defaults ∧
      stored? "/k" run.after =
        some { Settings.defaults with catalogUrl := some "file:///override.yml" } := by
  decide +kernel

end PluginResolution.Command
