import Mathlib.Control.Monad.Basic
import PluginResolution.Catalog.Client
import PluginResolution.Proofs.TierSteps
import PluginResolution.Proofs.TrimmedText

namespace PluginResolution

namespace HostVersion

theorem parse_trim {given : String} {h : HostVersion} (host : parse given = .ok h) :
    parse (Text.trim given) = .ok h := by
  have hsame : parse? (Text.trim given) = parse? given := by
    rw [parse?, parse?, Text.trim_trim]
  rw [parse] at host ⊢
  rw [hsame]
  cases hp : parse? given with
  | none =>
    rw [hp] at host
    cases host
  | some h' =>
    rw [hp] at host
    exact host

/-- A blank text is no host version. -/
theorem not_blank_of_parse {given : String} {h : HostVersion} (host : parse given = .ok h) :
    Text.isBlankText given = false := by
  cases hblank : Text.isBlankText given with
  | false => rfl
  | true =>
    have hempty : Text.trim given = "" := (Text.trim_eq_empty_iff given).mpr hblank
    have hnone : parse? given = none := by
      rw [parse?, hempty]
      rfl
    rw [parse, hnone] at host
    cases host

end HostVersion

namespace PluginDirectory

/-- What a directory publishes of a key for a version line, and the tier that the coordinate is
complete after: the first plugin under the key and its first version for the line count, an empty
version is none, and the naming convention stands in for an artifact id that is missing or empty. -/
def published? (d : PluginDirectory) (line key : String) : Option (Coordinate × Resolution.Tier) :=
  match d.find? (·.key = key) with
  | none => none
  | some p =>
    match p.versions.find? (·.1 = line) with
    | none => none
    | some (_, version) =>
      if version = "" then none
      else if p.artifactId = none ∨ p.artifactId = some "" then
        some (⟨some (Naming.artifactId key), some version⟩, .namingHeuristic)
      else some (⟨p.artifactId, some version⟩, .catalog)

theorem find_catalogFor (d : PluginDirectory) (h : HostVersion) (key : String) :
    (catalogFor d h).find? key = (d.find? (·.key = key)).map fun p =>
      ⟨p.key, p.groupId, ⟨p.artifactId, p.version? h.line⟩⟩ := by
  rw [Catalog.find?, catalogFor, List.find?_map]
  rfl

theorem version_eq (p : Plugin) (line : String) :
    p.version? line = (p.versions.find? (·.1 = line)).map (·.2) := by
  rw [Plugin.version?]
  induction p.versions with
  | nil => rfl
  | cons e rest ih =>
    by_cases he : e.1 = line
    · rw [List.find?_cons_of_pos (by simpa using he), Option.map_some, ← he, List.lookup_cons_self]
    · have hne : (line == e.1) = false := by simpa using Ne.symm he
      rw [List.find?_cons_of_neg (by simpa using he), List.lookup_cons, hne]
      exact ih

end PluginDirectory

namespace Catalog.Client

variable {m : Type → Type} [Monad m] [LawfulMonad m]

structure Idle (s : Client) : Prop where
  configured : s.misconfigured = none
  kept : s.cache.kept = []
  calls : s.calls = []

/-- Such a client makes its catalog from the text that it fetches, forced or not. -/
theorem ask_of_idle {s : Client} (idle : s.Idle) {given text : String} {h : HostVersion}
    {d : PluginDirectory} (host : HostVersion.parse given = .ok h)
    (accepted : PluginDirectory.parse text = .ok d) (forced : Bool) :
    ∃ s', s.ask given forced (pure (.ok text) : m _) =
      pure (.ok (PluginDirectory.catalogFor d h), s') := by
  have hfresh : (if forced then none else s.cache.fresh? s.now h.line) = none := by
    cases forced <;> simp [Cache.fresh?, Cache.find?, idle.kept]
  -- the call queues, is the first one of its line, finds nothing newer and fetches
  have henter : s.enter 0 given forced = (.waits, s.join 0 h forced) := by
    rw [enter, host]
    simp only [hfresh]
  have hresume : (s.join 0 h forced).step (.resume 0) =
      some (.fetches, (s.join 0 h forced).setPhase 0 .fetching) := by
    simp [join, step, find?, resume, fetch, idle.calls, idle.configured, Cache.newer?, Cache.find?,
      idle.kept]
  have hanswer : ∃ s', ((s.join 0 h forced).setPhase 0 .fetching).step (.answer 0 (.ok text)) =
      some (.ended (.ok (PluginDirectory.catalogFor d h)), s') := by
    simp [join, step, find?, setPhase, finish, idle.calls, Except.bind, accepted]
  obtain ⟨s', hanswer⟩ := hanswer
  refine ⟨s', ?_⟩
  rw [ask, henter]
  simp only [hresume, pure_bind, hanswer]

end Catalog.Client

namespace Resolution

variable {m : Type → Type} [Monad m]

def Sources.ofDirectory (records : List Ledger.Record)
    (fetched : m (Except PluginDirectory.Error String)) : Sources (StateT Catalog.Client m) where
  records := return .ok records
  catalog given forced client := client.ask given forced fetched
  artifactId key := return Naming.artifactId key

theorem ofDirectory_catalog_run (records : List Ledger.Record)
    (fetched : m (Except PluginDirectory.Error String)) (given : String) (forced : Bool)
    (client : Catalog.Client) :
    ((Sources.ofDirectory records fetched).catalog given forced).run client =
      client.ask given forced fetched := by
  simp only [Sources.ofDirectory, StateT.run]

theorem findRecord_of_unset {key : String} {records : List Ledger.Record}
    (h : ∀ r ∈ records, r.key = key → r.hasIdentifier = false) :
    Tier.findRecord? key records = none := by
  rw [Tier.findRecord?, List.find?_eq_none]
  intro r hr
  by_cases hkey : r.key = key
  · simp [h r hr hkey]
  · simp [hkey]

theorem artifactId_ne_empty (key : String) : Naming.artifactId key ≠ "" := by
  rw [Naming.artifactId]
  split
  · rename_i hsuffix
    intro he
    rw [he] at hsuffix
    exact absurd hsuffix (by decide)
  · intro he
    have hlist := congrArg String.toList he
    rw [String.toList_append] at hlist
    exact absurd (List.append_eq_nil_iff.mp hlist).2 (by decide)

section Listed

variable {s : Sources (StateT Catalog.Client m)} {r : Request} {client client' : Catalog.Client}

theorem ask_run_naming_skipped {p : Progress} (hv : p.found.version = none) :
    (ask s r [.namingHeuristic] p).run client = pure (.ok p.undecided, client) := by
  have ha : Tier.namingHeuristic.applies r p.found = false := by simp [Tier.applies, hv]
  rw [ask_run_skipped ha, ask_run_nil]

variable [LawfulMonad m]

theorem ask_run_naming {p : Progress} {guess : String}
    (hs : (s.artifactId r.key).run client = pure (guess, client')) (hguess : guess ≠ "")
    (ha : p.found.artifactId = none) (hv : p.found.version.isSome = true) :
    (ask s r [.namingHeuristic] p).run client =
      pure (.ok ((p.adopt .namingHeuristic (⟨some guess, p.found.versionField⟩, true)).decided
        .namingHeuristic), client') := by
  have happlies : Tier.namingHeuristic.applies r p.found = true := by simp [Tier.applies, ha, hv]
  have hset : setValue (some guess) = some guess := by simp [setValue, hguess]
  have hfill : p.found.fillArtifactId (some guess) =
      (⟨some guess, p.found.versionField⟩, true) := by
    simp [Coordinate.fillArtifactId, hset, ha]
  have hcontribute := contribute_run_namingHeuristic p.found hs
  rw [hfill] at hcontribute
  refine ask_run_decided happlies hcontribute ?_
  simp only [Coordinate.isComplete, Coordinate.artifactId, hset]
  exact hv

/-- What the catalog and the naming convention come to when the catalog's share is known. -/
theorem ask_run_of_listed {filled : Coordinate × Bool} {guess : String}
    (hcatalog : (Tier.catalog.contribute s r {}).run client = pure (.ok filled, client'))
    (hs : (s.artifactId r.key).run client' = pure (guess, client')) (hguess : guess ≠ "") :
    ∃ report, (ask s r [.catalog, .namingHeuristic] {}).run client = pure (.ok report, client') ∧
      (report.coordinate, report.decidedBy) =
        (match filled.1.artifactId, filled.1.version with
          | some _, some _ => (some filled.1, some .catalog)
          | none, some _ =>
            (some ⟨some guess, filled.1.versionField⟩, some .namingHeuristic)
          | _, none => (none, none)) ∧
      report.degraded = [] := by
  cases hv : filled.1.version with
  | none =>
    refine ⟨_, (ask_run_adopted rfl hcatalog ?_).trans (ask_run_naming_skipped hv), ?_, rfl⟩
    · simp [Coordinate.isComplete, hv]
    · cases filled.1.artifactId <;> rfl
  | some v =>
    cases ha : filled.1.artifactId with
    | some a =>
      refine ⟨_, ask_run_decided rfl hcatalog ?_, rfl, rfl⟩
      simp [Coordinate.isComplete, ha, hv]
    | none =>
      refine ⟨_, (ask_run_adopted rfl hcatalog ?_).trans
        (ask_run_naming hs hguess ha (by rw [Progress.adopt, hv]; rfl)), rfl, rfl⟩
      simp [Coordinate.isComplete, ha]

end Listed

section Directory

variable [LawfulMonad m] {r : Request} {records : List Ledger.Record} {text given : String}
  {h : HostVersion} {d : PluginDirectory} {client : Catalog.Client}

/-- A ledger that knows nothing of the key leaves everything to the catalog, and so does a caller
who knows nothing. -/
theorem resolve_run_of_unaided {fetched : m (Except PluginDirectory.Error String)}
    (valid : r.validate = .ok ()) (unaided : r.known.isEmpty = true)
    (unrecorded : ∀ x ∈ records, x.key = r.key → x.hasIdentifier = false) :
    (resolve (Sources.ofDirectory records fetched) r).run client =
      (ask (Sources.ofDirectory records fetched) r [.catalog, .namingHeuristic] {}).run client := by
  have hread : (Sources.ofDirectory records fetched).records.run client =
      pure (.ok records, client) := rfl
  have hstore := contribute_run_identifierStore (r := r) {} hread
  rw [findRecord_of_unset unrecorded] at hstore
  rw [resolve_run_of_unknown valid unaided]
  cases hf : r.forced with
  | true => exact ask_run_skipped (by simp [Tier.applies, hf])
  | false =>
    have happlies : Tier.identifierStore.applies r {} = true := by simp [Tier.applies, hf]
    exact ask_run_adopted (p := {}) happlies hstore rfl

def listedShare (d : PluginDirectory) (h : HostVersion) (key : String) : Coordinate × Bool :=
  match (PluginDirectory.catalogFor d h).find? key with
  | none => ({}, false)
  | some entry => Coordinate.fill {} entry.coordinate

/-- Completed with the artifact id of the naming convention, it is what the directory publishes. -/
theorem published_eq (d : PluginDirectory) (h : HostVersion) (key : String) :
    ((d.published? h.line key).map (·.1), (d.published? h.line key).map (·.2)) =
      match (listedShare d h key).1.artifactId, (listedShare d h key).1.version with
      | some _, some _ => (some (listedShare d h key).1, some .catalog)
      | none, some _ => (some ⟨some (Naming.artifactId key), (listedShare d h key).1.versionField⟩,
          some .namingHeuristic)
      | _, none => (none, none) := by
  cases hp : d.find? (·.key = key) with
  | none =>
    have hshare : listedShare d h key = ({}, false) := by
      rw [listedShare, PluginDirectory.find_catalogFor, hp]
      rfl
    rw [PluginDirectory.published?, hp, hshare]
    rfl
  | some p =>
    have hshare : (listedShare d h key).1 = ⟨setValue p.artifactId,
        setValue ((p.versions.find? (·.1 = h.line)).map (·.2))⟩ := by
      rw [listedShare, PluginDirectory.find_catalogFor, hp, Option.map_some]
      simp only [fill_empty_found, Coordinate.artifactId, Coordinate.version,
        PluginDirectory.version_eq]
    rw [PluginDirectory.published?, hp, hshare]
    simp only [Coordinate.artifactId, Coordinate.version, Coordinate.setValue_setValue]
    -- a version that is missing and one that is empty are the same, and so with the artifact id
    cases hv : p.versions.find? (·.1 = h.line) with
    | none => cases setValue p.artifactId <;> rfl
    | some e =>
      by_cases hempty : e.2 = ""
      · simp only [hempty, if_true, Option.map_some]
        cases setValue p.artifactId <;> rfl
      · have hset : setValue (some e.2) = some e.2 := by simp [setValue, hempty]
        simp only [hempty, if_false, Option.map_some, hset]
        cases ha : p.artifactId with
        | none => rfl
        | some a =>
          by_cases hnone : a = ""
          · subst hnone
            rfl
          · have hset' : setValue (some a) = some a := by simp [setValue, hnone]
            simp [hset', hnone]

/-- A resolution that has nothing but the text of a directory, in a ledger and a request that set no
field for the key, answers what the directory publishes for the host's line. Nothing else is
noted, whatever the text holds and whether or not the request is forced. -/
theorem resolve_of_directory (accepted : PluginDirectory.parse text = .ok d)
    (host : HostVersion.parse given = .ok h)
    (asked : r.hostVersion = given ∨ r.hostVersion = Text.trim given)
    (named : Text.isBlankText r.key = false) (unpadded : Text.trim r.key = r.key)
    (unaided : r.known.isEmpty = true)
    (unrecorded : ∀ x ∈ records, x.key = r.key → x.hasIdentifier = false) (idle : client.Idle) :
    ∃ report client',
      (resolve (Sources.ofDirectory records (pure (.ok text) : m _)) r).run client =
        pure (.ok report, client') ∧
      report.coordinate = (d.published? h.line r.key).map (·.1) ∧
      report.decidedBy = (d.published? h.line r.key).map (·.2) ∧
      report.degraded = [] := by
  have hparse : HostVersion.parse r.hostVersion = .ok h := by
    rcases asked with hasked | hasked
    · rw [hasked]
      exact host
    · rw [hasked]
      exact HostVersion.parse_trim host
  have valid : r.validate = .ok () := by
    rw [Request.validate, named, HostVersion.not_blank_of_parse hparse]
    simp [unpadded]
  obtain ⟨client', hasked⟩ :=
    Catalog.Client.ask_of_idle (m := m) idle hparse accepted r.forced
  let s := Sources.ofDirectory records (pure (.ok text) : m _)
  have hlisted : (s.catalog r.hostVersion r.forced).run client =
      pure (.ok (PluginDirectory.catalogFor d h), client') := by
    rw [ofDirectory_catalog_run, hasked]
  have hcatalog : (Tier.catalog.contribute s r {}).run client =
      pure (.ok (listedShare d h r.key), client') := by
    rw [listedShare]
    exact contribute_run_catalog {} hlisted
  have hnamed : (s.artifactId r.key).run client' = pure (Naming.artifactId r.key, client') := rfl
  obtain ⟨report, hrun, hreport, hdegraded⟩ :=
    ask_run_of_listed hcatalog hnamed (artifactId_ne_empty r.key)
  rw [← published_eq, Prod.mk.injEq] at hreport
  exact ⟨report, client', (resolve_run_of_unaided valid unaided unrecorded).trans hrun, hreport.1,
    hreport.2, hdegraded⟩

/-- The plugin has no artifact id, and the host version has blanks around it. -/
theorem resolve_of_directory_by_name :
    ∃ report client',
      (resolve (Sources.ofDirectory [{ key := "stripe" }]
          (pure (.ok "stripe:\n  versions:\n    0.24: 7.0.0") : Id _))
        ⟨"0.24.1", "stripe", none, some "", true⟩).run { cache := { ttl := 0 } } =
        pure (.ok report, client') ∧
      report.coordinate = some ⟨some "stripe-plugin", some "7.0.0"⟩ ∧
      report.decidedBy = some .namingHeuristic := by
  have accepted : PluginDirectory.parse "stripe:\n  versions:\n    0.24: 7.0.0" =
      .ok [{ key := "stripe", versions := [("0.24", "7.0.0")] }] := by decide +kernel
  have host : HostVersion.parse " 0.24.1 " = .ok ⟨"0.24.1", 0, 24⟩ := by decide +kernel
  have asked : "0.24.1" = Text.trim " 0.24.1 " := by decide +kernel
  have unrecorded : ∀ x ∈ [({ key := "stripe" } : Ledger.Record)],
      x.key = "stripe" → x.hasIdentifier = false := by decide +kernel
  have published : PluginDirectory.published?
      [{ key := "stripe", versions := [("0.24", "7.0.0")] }]
      (HostVersion.line ⟨"0.24.1", 0, 24⟩) "stripe" =
      some (⟨some "stripe-plugin", some "7.0.0"⟩, .namingHeuristic) := by decide +kernel
  have idle : ({ cache := { ttl := 0 } } : Catalog.Client).Idle := ⟨rfl, rfl, rfl⟩
  obtain ⟨report, client', hrun, hcoordinate, hdecided, -⟩ :=
    resolve_of_directory (m := Id) (r := ⟨"0.24.1", "stripe", none, some "", true⟩) accepted host
      (.inr asked) (by decide +kernel) (by decide +kernel) rfl unrecorded idle
  rw [published] at hcoordinate hdecided
  exact ⟨report, client', hrun, hcoordinate, hdecided⟩

end Directory

end Resolution

end PluginResolution
