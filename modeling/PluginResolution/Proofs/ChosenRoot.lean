import PluginResolution.Proofs.ProgramSteps
import PluginResolution.Proofs.RootVariable

/-!
The data root of a run. A written one counts before the variable, and the variable before the
system's place. A blank variable is taken for a data root all the same, and an empty one is refused
even where a data root is written; everywhere else a blank variable is as good as none.
-/
namespace PluginResolution.Command

namespace Environment

/-- The data root that a command line asks for: the last one that is written, else the variable's
unless it is blank, else a directory of its own in the system's place. -/
def rootFor? (e : Environment) (arguments : List String) : Option String :=
  (writtenRoots arguments).getLast?.or
    (((List.lookup "KPM_DATA_DIR" e.bindings).filter (!Text.isBlankText ·)).or
      (e.surroundings.systemDirectory?.map (Path.join · "kpm")))

def unrooted (e : Environment) : Environment :=
  { e with bindings := e.bindings.filter (·.1 ≠ "KPM_DATA_DIR") }

/-- Where the variable is blank, a data root is written that counts before it. -/
def BlankOverruled (e : Environment) (arguments : List String) : Prop :=
  ∀ root, List.lookup "KPM_DATA_DIR" e.bindings = some root → Text.isBlankText root = true →
    writtenRoots arguments ≠ []

end Environment

def runAt {m : Type → Type} [Monad m] (w : Fetch.World (StateT FileTree m)) (root : String)
    (catalogUrl : Option String) : Task → StateT FileTree m Ending
  | .paths => showPaths (some root) {}
  | task => perform w { dataRoot := some root, catalogUrl } {} task

section Choice

variable {e : Environment} {arguments : List String} {root : String}

theorem choose_some (h : root ≠ "") (around : DataRoot.Surroundings) :
    DataRoot.choose (some root) around = .ok root := by
  have hempty : root.isEmpty = false := by
    rw [Bool.eq_false_iff]
    intro hempty
    exact h (String.isEmpty_iff.mp hempty)
  rw [DataRoot.choose, hempty]
  rfl

theorem nonempty_of_not_blank (h : Text.isBlankText root = false) : root ≠ "" := by
  rintro rfl
  exact absurd h (by decide)

/-- A root that is asked for is not empty, unless it is written so. -/
theorem rootFor_nonempty (h : e.rootFor? arguments = some root)
    (hwritten : "" ∉ writtenRoots arguments) : root ≠ "" := by
  rw [Environment.rootFor?] at h
  rcases Option.or_eq_some_iff.mp h with hlast | ⟨-, h⟩
  · rintro rfl
    exact hwritten (List.mem_of_getLast? hlast)
  rcases Option.or_eq_some_iff.mp h with hvariable | ⟨-, hsystem⟩
  · have hblank := (Option.filter_eq_some_iff.mp hvariable).2
    exact nonempty_of_not_blank (by simpa using hblank)
  · obtain ⟨dir, -, rfl⟩ := Option.map_eq_some_iff.mp hsystem
    have hplain : Path.IsPlain "kpm" := ⟨by decide, by decide⟩
    rw [Path.join_eq dir hplain]
    intro hempty
    exact absurd (String.append_eq_empty_iff.mp hempty).2 (by decide)

theorem root_of_read {bindings : Variables} {i : Invocation}
    (hread : Invocation.read bindings arguments = .ok i) :
    i.dataRoot = (writtenRoots arguments).getLast?.or (List.lookup "KPM_DATA_DIR" bindings) ∧
      "" ∉ writtenRoots arguments := by
  obtain ⟨levels, hlevels, hinvocation⟩ := of_bind_ok hread
  cases hinvocation
  exact root_of_readLevels hlevels

/-- The root that is chosen is the one that the command line asks for. -/
theorem choose_of_read {i : Invocation} (hread : Invocation.read e.bindings arguments = .ok i)
    (overruled : e.BlankOverruled arguments) :
    DataRoot.choose i.dataRoot e.surroundings =
      match e.rootFor? arguments with
      | some root => .ok root
      | none => .error .noDataDirectory := by
  obtain ⟨hroot, hnonempty⟩ := root_of_read hread
  rw [hroot, Environment.rootFor?]
  cases hlast : (writtenRoots arguments).getLast? with
  | some root =>
    have hroot : root ≠ "" := by
      rintro rfl
      exact hnonempty (List.mem_of_getLast? hlast)
    exact choose_some hroot _
  | none =>
    have hnone : writtenRoots arguments = [] := List.getLast?_eq_none_iff.mp hlast
    cases hvariable : List.lookup "KPM_DATA_DIR" e.bindings with
    | some root =>
      have hblank : Text.isBlankText root = false := by
        rw [Bool.eq_false_iff]
        intro hblank
        exact overruled root hvariable hblank hnone
      rw [Option.none_or, Option.none_or, Option.filter_some, hblank]
      exact choose_some (nonempty_of_not_blank hblank) _
    | none =>
      have hsurroundings : e.surroundings.dataRoot = none := hvariable
      rw [DataRoot.choose.eq_def, Option.none_or, Option.none_or, hsurroundings, Option.filter_none,
        Option.none_or]
      cases e.surroundings.systemDirectory? <;> rfl

/-- What is asked for beside the data root does not depend on the variable for it. -/
theorem read_unrooted (nonempty : List.lookup "KPM_DATA_DIR" e.bindings ≠ some "")
    (arguments : List String) :
    Alike Invocation.SameBesides (Invocation.read e.unrooted.bindings arguments)
      (Invocation.read e.bindings arguments) := by
  have hnone : List.lookup "KPM_DATA_DIR" e.unrooted.bindings = none :=
    lookup_filter_self "KPM_DATA_DIR" e.bindings
  have same : Variables.SameBesides e.unrooted.bindings e.bindings := by
    refine ⟨fun hname => lookup_filter_of_ne hname e.bindings, ?_, nonempty⟩
    rw [hnone]
    nofun
  exact read_alike same arguments

end Choice

variable {m : Type → Type} [Monad m]

section Runs

variable {w : Fetch.World (StateT FileTree m)} {e : Environment} {arguments : List String}
  {root : String} {asked : Option String} {around : DataRoot.Surroundings} {i : Invocation}

/-- Where a root is chosen, what it was chosen from does not count. -/
theorem showPaths_eq (h : DataRoot.choose asked around = .ok root) (hroot : root ≠ "") :
    (showPaths asked around : StateT FileTree m Ending) = showPaths (some root) {} := by
  have hresolve : DataRoot.resolve asked around = DataRoot.resolve (some root) {} := by
    rw [DataRoot.resolve, DataRoot.resolve, h, choose_some hroot]
  rw [showPaths, showPaths, hresolve]

theorem perform_eq (h : DataRoot.choose i.dataRoot around = .ok root) (hroot : root ≠ "")
    (task : Task) :
    perform w i around task =
      perform w { dataRoot := some root, catalogUrl := i.catalogUrl } {} task := by
  have hresolve : DataRoot.resolve i.dataRoot around = DataRoot.resolve (some root) {} := by
    rw [DataRoot.resolve, DataRoot.resolve, h, choose_some hroot]
  have hstart : Session.start i.dataRoot around i.catalogUrl =
      Session.start (some root) {} i.catalogUrl := by
    rw [Session.start, Session.start, hresolve]
  rw [perform, perform, hstart]

variable {t : FileTree} {task : Task}

theorem program_of_chosen (hread : Invocation.read (e.loaded t).bindings arguments = .ok i)
    (htask : i.task = some task)
    (h : DataRoot.choose i.dataRoot (e.loaded t).surroundings = .ok root) (hroot : root ≠ "") :
    program w e arguments t = runAt w root i.catalogUrl task t := by
  rw [program]
  simp only [hread, htask]
  cases task with
  | paths => exact congrFun (showPaths_eq h hroot) t
  | _ => exact congrFun (perform_eq h hroot _) t

theorem showPaths_of_unchosen [LawfulMonad m] {error : DataRoot.Error}
    (h : DataRoot.choose asked around = .error error) :
    (showPaths asked around : StateT FileTree m Ending) t =
      pure (.ran "" (some (.failure (.ofDataRoot error))), t) := by
  have hresolve : DataRoot.resolve asked around = throw error := by rw [DataRoot.resolve, h]
  rw [showPaths, hresolve]
  exact pure_bind _ _

theorem perform_of_unchosen [LawfulMonad m] {error : DataRoot.Error}
    (h : DataRoot.choose i.dataRoot around = .error error) :
    perform w i around task t = pure (.ran "" (some (.failure (.ofDataRoot error))), t) := by
  have hresolve : DataRoot.resolve i.dataRoot around = throw error := by rw [DataRoot.resolve, h]
  rw [perform, Session.start, hresolve]
  exact pure_bind _ _

/-- Without a data root nothing is carried out, and no file is touched. -/
theorem program_of_unchosen [LawfulMonad m] {error : DataRoot.Error}
    (hread : Invocation.read (e.loaded t).bindings arguments = .ok i) (htask : i.task = some task)
    (h : DataRoot.choose i.dataRoot (e.loaded t).surroundings = .error error) :
    program w e arguments t = pure (.ran "" (some (.failure (.ofDataRoot error))), t) := by
  rw [program]
  simp only [hread, htask]
  cases task with
  | paths => exact showPaths_of_unchosen h
  | _ => exact perform_of_unchosen h

/-- A task is carried out at the root that is asked for. -/
theorem program_of_task [LawfulMonad m]
    (hread : Invocation.read (e.loaded t).bindings arguments = .ok i) (htask : i.task = some task)
    (overruled : (e.loaded t).BlankOverruled arguments) :
    program w e arguments t =
      match (e.loaded t).rootFor? arguments with
      | some root => runAt w root i.catalogUrl task t
      | none => pure (.ran "" (some (.failure (.ofDataRoot .noDataDirectory))), t) := by
  have hchoose := choose_of_read hread overruled
  cases hroot : (e.loaded t).rootFor? arguments with
  | some root =>
    rw [hroot] at hchoose
    exact program_of_chosen hread htask hchoose (rootFor_nonempty hroot (root_of_read hread).2)
  | none =>
    rw [hroot] at hchoose
    exact program_of_unchosen hread htask hchoose

theorem program_of_refused {r : Refusal}
    (hread : Invocation.read (e.loaded t).bindings arguments = .error r) :
    program w e arguments t = pure (.refused r, t) := by
  rw [program]
  simp only [hread]

theorem program_of_help (hread : Invocation.read (e.loaded t).bindings arguments = .ok i)
    (htask : i.task = none) : program w e arguments t = pure (.help, t) := by
  rw [program]
  simp only [hread, htask]

/-- At a root that is given a session works with that root. -/
theorem Session.of_start_at {catalogUrl : Option String} {s : Session} {t₁ t₂ : FileTree}
    (hroot : root ≠ "") (h : Session.start (some root) {} catalogUrl t₁ = (.ok s, t₂)) :
    s.root = .ofRoot root ∧ s.storage.IsAt root := by
  obtain ⟨chosen, d, stored, hchoose, -, -, rfl⟩ := Session.of_start h
  rw [choose_some hroot] at hchoose
  cases hchoose
  exact ⟨rfl, Storage.isAt_ofRoot root _⟩

end Runs

/-- Every run of the program is at the data root that its command line and environment ask for, and
the variable for it counts for nothing else. An empty root that is written is refused, and no file
is touched. This holds where the variable is not empty and, for a task, not blank unless a root is
written. -/
theorem program_at_root [LawfulMonad m] (w : Fetch.World (StateT FileTree m)) (e : Environment)
    (arguments : List String) (t : FileTree) :
    ("" ∈ writtenRoots arguments → ∃ r, program w e arguments t = pure (.refused r, t)) ∧
    (List.lookup "KPM_DATA_DIR" (e.loaded t).bindings ≠ some "" →
      match Invocation.read (e.loaded t).unrooted.bindings arguments with
      | .error r => ∃ r', r'.exitCode = r.exitCode ∧ program w e arguments t = pure (.refused r', t)
      | .ok i =>
        match i.task with
        | none => program w e arguments t = pure (.help, t)
        | some task => (e.loaded t).BlankOverruled arguments → program w e arguments t =
            match (e.loaded t).rootFor? arguments with
            | some root => runAt w root i.catalogUrl task t
            | none => pure (.ran "" (some (.failure (.ofDataRoot .noDataDirectory))), t)) ∧
    ∀ root, (e.loaded t).rootFor? arguments = some root → "" ∉ writtenRoots arguments →
      DataRoot.choose (some root) {} = .ok root ∧
        ∀ {catalogUrl s t₁ t₂}, Session.start (some root) {} catalogUrl t₁ = (.ok s, t₂) →
          s.root = .ofRoot root ∧ s.storage.IsAt root := by
  refine ⟨?_, ?_, ?_⟩
  · intro hempty
    cases hread : Invocation.read (e.loaded t).bindings arguments with
    | error r => exact ⟨r, program_of_refused hread⟩
    | ok i => exact absurd hempty (root_of_read hread).2
  · intro nonempty
    have hsame := read_unrooted nonempty arguments
    -- with the variable and without it, the command line is refused or asks for the same
    cases hread : Invocation.read (e.loaded t).bindings arguments with
    | error r' =>
      rw [hread] at hsame
      obtain ⟨r, hunset, hcode⟩ := hsame.of_error
      rw [hunset]
      exact ⟨r', hcode.symm, program_of_refused hread⟩
    | ok i' =>
      rw [hread] at hsame
      obtain ⟨i, hunset, same⟩ := hsame.of_ok
      rw [hunset]
      dsimp only
      rw [same.task, same.catalogUrl]
      cases htask : i'.task with
      | none => exact program_of_help hread htask
      | some task => exact program_of_task hread htask
  · intro root hroot hwritten
    have hnonempty := rootFor_nonempty hroot hwritten
    exact ⟨choose_some hnonempty _, Session.of_start_at hnonempty⟩

/-- The variable is blank, but a data root is written. An empty one is refused. -/
theorem program_at_root_overruled :
    let e : Environment := { bindings := [("KPM_DATA_DIR", "  "), ("HOME", "/home")] }
    let t : FileTree := ⟨[], []⟩
    (∃ r, program (m := Id) .empty e ["paths", "--data-dir="] t = (.refused r, t)) ∧
    program (m := Id) .empty e ["--data-dir", "/own", "paths"] t =
      runAt .empty "/own" none .paths t ∧
    (runAt (m := Id) .empty "/own" none .paths t).1 = .ran ("data_root = /own\n" ++
      "database_path = /own/data/kpm.db\n" ++
      "identifiers_file = /own/plugins/plugin_identifiers.json\n") none ∧
    DataRoot.choose (some "/own") {} = .ok "/own" := by
  intro e t
  obtain ⟨-, hrun, hchosen⟩ := program_at_root (m := Id) .empty e ["--data-dir", "/own", "paths"] t
  have hread : Invocation.read (e.loaded t).unrooted.bindings ["--data-dir", "/own", "paths"] =
      .ok { dataRoot := some "/own", task := some .paths } := by decide +kernel
  have hroot : (e.loaded t).rootFor? ["--data-dir", "/own", "paths"] = some "/own" := by
    decide +kernel
  have overruled : (e.loaded t).BlankOverruled ["--data-dir", "/own", "paths"] := by
    intro root _ _
    decide
  have nonempty : List.lookup "KPM_DATA_DIR" (e.loaded t).bindings ≠ some "" := by decide +kernel
  rw [hread, hroot] at hrun
  exact ⟨(program_at_root .empty e ["paths", "--data-dir="] t).1 (by decide),
    hrun nonempty overruled, by decide +kernel, (hchosen "/own" hroot (by decide)).1⟩

/-- A blank variable is taken for a data root, and the directory is made. An empty one is refused.
Without the variable the directory is in the system's place. -/
theorem blank_variable_taken_for_root :
    let blank : Environment := { bindings := [("KPM_DATA_DIR", "  "), ("HOME", "/home")] }
    let empty : Environment := { bindings := [("KPM_DATA_DIR", ""), ("HOME", "/home")] }
    let run := runAlone blank ["paths"] ⟨[], []⟩
    run.ending = .ran ("data_root =   \n" ++ "database_path =   /data/kpm.db\n" ++
      "identifiers_file =   /plugins/plugin_identifiers.json\n") none ∧
    run.after.isDirectory "  " = true ∧
    (runAlone empty ["paths"] ⟨[], []⟩).ending = .refused .missingValue ∧
    (runAlone blank.unrooted ["paths"] ⟨[], []⟩).ending =
      .ran ("data_root = /home/.local/share/kpm\n" ++
        "database_path = /home/.local/share/kpm/data/kpm.db\n" ++
        "identifiers_file = /home/.local/share/kpm/plugins/plugin_identifiers.json\n") none := by
  decide +kernel

end PluginResolution.Command
