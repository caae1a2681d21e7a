import PluginResolution.Resolution.Cascade

/-!
The cascade asks its tiers in turn and stops at the first complete coordinate. Its answer is that of
a merge that asks every source beforehand and takes, for each field, the first set value in the
order of trust.
-/
namespace PluginResolution.Resolution

def firstSet (values : List (Option String)) : Option String :=
  values.findSome? setValue

namespace Sources

/-- What the ledger knows: the first record under the key that sets a field. It knows nothing when
it fails, and it is not listened to under force. -/
def recorded (s : Sources Id) (r : Request) : Coordinate :=
  if r.forced then {}
  else match s.records.run with
    | .error _ => {}
    | .ok records =>
      match records.find? fun x =>
          x.key = r.key ∧ (setValue x.artifactId ≠ none ∨ setValue x.version ≠ none) with
      | some x => ⟨x.artifactId, x.version⟩
      | none => {}

/-- What the catalog knows: its first entry under the key; nothing when the catalog fails. -/
def listed (s : Sources Id) (r : Request) : Coordinate :=
  match (s.catalog r.hostVersion r.forced).run with
  | .error _ => {}
  | .ok c =>
    match c.entries.find? fun x => x.key = r.key with
    | some x => x.coordinate
    | none => {}

/-- Both fields, each the first set value among what the caller, the ledger and the catalog know;
the naming convention stands in for an artifact id that none of them knows. -/
def merged (s : Sources Id) (r : Request) : Option Coordinate :=
  match firstSet [r.artifactId, (s.recorded r).artifactField, (s.listed r).artifactField,
      some (s.artifactId r.key).run],
    firstSet [r.version, (s.recorded r).versionField, (s.listed r).versionField] with
  | some a, some v => some ⟨some a, some v⟩
  | _, _ => none

/-- The merge fails only with the catalog, when force is asked for and the caller does not know both
fields. -/
def eager (s : Sources Id) (r : Request) : Except Error (Option Coordinate) :=
  match (s.catalog r.hostVersion r.forced).run with
  | .error e =>
    if r.forced ∧ ¬((setValue r.artifactId).isSome ∧ (setValue r.version).isSome) then
      .error (.sourceFailed .catalog (.catalog e))
    else .ok (s.merged r)
  | .ok _ => .ok (s.merged r)

end Sources

def Plain (c : Coordinate) : Prop :=
  c.artifactField = c.artifactId ∧ c.versionField = c.version

theorem plain_fillArtifactId {c : Coordinate} (hc : Plain c) (value : Option String) :
    Plain (c.fillArtifactId value).1 := by
  refine ⟨?_, ?_⟩
  · unfold Coordinate.fillArtifactId
    split
    · exact (Coordinate.setValue_setValue value).symm
    · exact hc.1
  · rw [Coordinate.version_fillArtifactId, ← hc.2]
    unfold Coordinate.fillArtifactId
    split <;> rfl

theorem plain_fillVersion {c : Coordinate} (hc : Plain c) (value : Option String) :
    Plain (c.fillVersion value).1 := by
  refine ⟨?_, ?_⟩
  · rw [Coordinate.artifactId_fillVersion, ← hc.1]
    unfold Coordinate.fillVersion
    split <;> rfl
  · unfold Coordinate.fillVersion
    split
    · exact (Coordinate.setValue_setValue value).symm
    · exact hc.2

theorem plain_fill {c : Coordinate} (hc : Plain c) (source : Coordinate) :
    Plain (c.fill source).1 :=
  plain_fillVersion (plain_fillArtifactId hc source.artifactId) source.version

/-- A complete coordinate takes nothing over. -/
theorem fill_of_complete {c : Coordinate} (hc : c.isComplete = true) (source : Coordinate) :
    (c.fill source).1 = c := by
  obtain ⟨ha, hv⟩ := Bool.and_eq_true_iff.mp hc
  have hna : c.artifactId.isNone = false := by simpa using ha
  have hnv : c.version.isNone = false := by simpa using hv
  simp only [Coordinate.fill, Coordinate.fillArtifactId, Coordinate.fillVersion, hna, hnv,
    Bool.and_false, Bool.false_eq_true, if_false]

theorem fill_empty (c : Coordinate) : c.fill {} = (c, false) := by
  rfl

def Tier.share (t : Tier) (s : Sources Id) (r : Request) : Coordinate :=
  match t with
  | .callerInput => r.known
  | .identifierStore => s.recorded r
  | .catalog => s.listed r
  | .namingHeuristic => ⟨some (s.artifactId r.key).run, none⟩

def gathered (s : Sources Id) (r : Request) (ts : List Tier) (c : Coordinate) : Coordinate :=
  ts.foldl (fun c t => (c.fill (t.share s r)).1) c

def finished (c : Coordinate) : Option Coordinate :=
  if c.isComplete then some c else none

theorem gathered_cons (s : Sources Id) (r : Request) (t : Tier) (ts : List Tier) (c : Coordinate) :
    gathered s r (t :: ts) c = gathered s r ts (c.fill (t.share s r)).1 :=
  rfl

theorem finished_of_complete {c : Coordinate} (hc : c.isComplete = true) : finished c = some c :=
  if_pos hc

theorem finished_of_incomplete {c : Coordinate} (hc : c.isComplete = false) : finished c = none :=
  if_neg (by simp [hc])

theorem gathered_of_complete (s : Sources Id) (r : Request) (ts : List Tier) {c : Coordinate}
    (hc : c.isComplete = true) : gathered s r ts c = c := by
  induction ts with
  | nil => rfl
  | cons t ts ih => rw [gathered_cons, fill_of_complete hc, ih]

theorem findRecord_eq (key : String) (records : List Ledger.Record) :
    Tier.findRecord? key records = records.find? fun x =>
      x.key = key ∧ (setValue x.artifactId ≠ none ∨ setValue x.version ≠ none) := by
  unfold Tier.findRecord?
  congr 1
  funext x
  have hset (v : Option String) : (!(setValue v).isNone) = decide (setValue v ≠ none) := by
    cases setValue v <;> simp
  simp only [Ledger.Record.hasIdentifier, Ledger.Record.coordinate, Coordinate.isEmpty,
    Coordinate.artifactId, Coordinate.version, Bool.not_and, hset, Bool.decide_and,
    Bool.decide_or]

theorem contribute_identifierStore {s : Sources Id} {r : Request} {records : List Ledger.Record}
    (c : Coordinate) (hf : r.forced = false) (hs : s.records.run = .ok records) :
    (Tier.identifierStore.contribute s r c).run = .ok (c.fill (s.recorded r)) := by
  simp only [Sources.recorded, hf, hs, Bool.false_eq_true, if_false, ← findRecord_eq]
  cases hfind : Tier.findRecord? r.key records <;> simp [Tier.contribute, hs, hfind]
  · exact (fill_empty c).symm
  · rfl

theorem contribute_catalog {s : Sources Id} {r : Request} {listed : Catalog} (c : Coordinate)
    (hs : (s.catalog r.hostVersion r.forced).run = .ok listed) :
    (Tier.catalog.contribute s r c).run = .ok (c.fill (s.listed r)) := by
  have hshare : s.listed r = match listed.find? r.key with
      | some x => x.coordinate
      | none => {} := by
    simp only [Sources.listed, hs]
    rfl
  rw [hshare]
  cases hfind : listed.find? r.key <;> simp [Tier.contribute, hs, hfind]
  exact (fill_empty c).symm

/-- Filling the artifact id is filling from a coordinate without a version. -/
theorem fillArtifactId_eq_fill (c : Coordinate) (value : Option String) :
    c.fillArtifactId value = c.fill ⟨value, none⟩ := by
  have hset : c.fillArtifactId (setValue value) = c.fillArtifactId value := by
    simp only [Coordinate.fillArtifactId, Coordinate.setValue_setValue]
  calc c.fillArtifactId value
      = ((c.fillArtifactId (setValue value)).1, (c.fillArtifactId (setValue value)).2 || false) := by
        rw [hset, Bool.or_false]
    _ = c.fill ⟨value, none⟩ := rfl

theorem contribute_namingHeuristic (s : Sources Id) (r : Request) (c : Coordinate) :
    (Tier.namingHeuristic.contribute s r c).run =
      .ok (c.fill (Tier.namingHeuristic.share s r)) := by
  simp [Tier.contribute, Tier.share, fillArtifactId_eq_fill]

/-- A tier that is asked adds its share, or it fails and has none. -/
theorem contribute_share (t : Tier) (s : Sources Id) (r : Request) (c : Coordinate)
    (ha : t.applies r c = true) :
    (t.contribute s r c).run = .ok (c.fill (t.share s r)) ∨
      t.share s r = {} ∧ ∃ e, (t.contribute s r c).run = .error e := by
  cases t with
  | callerInput => exact .inl rfl
  | identifierStore =>
    have hf : r.forced = false := by simpa [Tier.applies] using ha
    cases hs : s.records.run with
    | error e =>
      refine .inr ⟨?_, .ledger e, by simp [Tier.contribute, hs]⟩
      simp only [Tier.share, Sources.recorded, hf, hs, Bool.false_eq_true, if_false]
    | ok records => exact .inl (contribute_identifierStore c hf hs)
  | catalog =>
    cases hs : (s.catalog r.hostVersion r.forced).run with
    | error e =>
      refine .inr ⟨?_, .catalog e, by simp [Tier.contribute, hs]⟩
      simp only [Tier.share, Sources.listed, hs]
    | ok listed => exact .inl (contribute_catalog c hs)
  | namingHeuristic => exact .inl (contribute_namingHeuristic s r c)

/-- Apart from the naming convention, a tier that is passed over has nothing to add. -/
theorem share_of_not_applies {t : Tier} (s : Sources Id) {r : Request} {c : Coordinate}
    (ht : t ≠ .namingHeuristic) (ha : t.applies r c = false) : t.share s r = {} := by
  cases t with
  | callerInput => simp [Tier.applies] at ha
  | identifierStore =>
    have hf : r.forced = true := by simpa [Tier.applies] using ha
    simp only [Tier.share, Sources.recorded, hf, if_true]
  | catalog => simp [Tier.applies] at ha
  | namingHeuristic => exact absurd rfl ht

section Steps

variable {s : Sources Id} {r : Request} {t : Tier} {p : Progress}

theorem ask_skipped (ts : List Tier) (ha : t.applies r p.found = false) :
    (ask s r (t :: ts) p).run = (ask s r ts p).run := by
  rw [ask, if_neg (by simp [ha])]

theorem ask_decided (ts : List Tier) {filled : Coordinate × Bool}
    (ha : t.applies r p.found = true) (hs : (t.contribute s r p.found).run = .ok filled)
    (hc : filled.1.isComplete = true) :
    (ask s r (t :: ts) p).run = .ok ((p.adopt t filled).decided t) := by
  rw [ask, if_pos ha, Id.run_bind, hs]
  change (if filled.1.isComplete = true then _ else _ : Id _).run = _
  rw [if_pos hc]
  rfl

theorem ask_adopted (ts : List Tier) {filled : Coordinate × Bool}
    (ha : t.applies r p.found = true) (hs : (t.contribute s r p.found).run = .ok filled)
    (hc : filled.1.isComplete = false) :
    (ask s r (t :: ts) p).run = (ask s r ts (p.adopt t filled)).run := by
  rw [ask, if_pos ha, Id.run_bind, hs]
  change (if filled.1.isComplete = true then _ else _ : Id _).run = _
  rw [if_neg (by simp [hc])]

theorem ask_tolerated (ts : List Tier) {e : SourceError} (ha : t.applies r p.found = true)
    (hs : (t.contribute s r p.found).run = .error e) (hr : t.isRequired r = false) :
    (ask s r (t :: ts) p).run = (ask s r ts (p.tolerate t e)).run := by
  rw [ask, if_pos ha, Id.run_bind, hs]
  change (if t.isRequired r = true then _ else _ : Id _).run = _
  rw [if_neg (by simp [hr])]

theorem ask_aborted (ts : List Tier) {e : SourceError} (ha : t.applies r p.found = true)
    (hs : (t.contribute s r p.found).run = .error e) (hr : t.isRequired r = true) :
    (ask s r (t :: ts) p).run = .error (.sourceFailed t e) := by
  rw [ask, if_pos ha, Id.run_bind, hs]
  change (if t.isRequired r = true then _ else _ : Id _).run = _
  rw [if_pos hr]
  rfl

end Steps

/-- The naming convention comes last and is asked only with a version at hand, but without one the
coordinate stays incomplete whatever it says. -/
theorem ask_naming (s : Sources Id) (r : Request) (p : Progress)
    (hc : p.found.isComplete = false) :
    (ask s r [.namingHeuristic] p).run.map (·.coordinate) =
      .ok (finished (gathered s r [.namingHeuristic] p.found)) := by
  have hs := contribute_namingHeuristic s r p.found
  rw [gathered_cons]
  cases hf : (p.found.fill (Tier.namingHeuristic.share s r)).1.isComplete with
  | true =>
    -- an artifact id completes only a coordinate that has its version, so the tier is asked
    have ha : Tier.namingHeuristic.applies r p.found = true := by
      simp only [Coordinate.isComplete, Coordinate.artifactId_fill, Coordinate.version_fill] at hc hf
      cases hv : p.found.version <;> cases hart : p.found.artifactId <;>
        simp_all [Tier.applies, Tier.share, Coordinate.version, setValue]
    rw [ask_decided [] ha hs hf, gathered_of_complete s r [] hf, finished_of_complete hf]
    rfl
  | false =>
    have hn : finished (gathered s r [] (p.found.fill (Tier.namingHeuristic.share s r)).1) = none :=
      finished_of_incomplete hf
    rw [hn]
    cases ha : Tier.namingHeuristic.applies r p.found with
    | true =>
      rw [ask_adopted [] ha hs hf]
      rfl
    | false =>
      rw [ask_skipped [] ha]
      rfl

/-- As long as no source fails that the request cannot do without, stopping at the first complete
coordinate gives what asking every tier gives. -/
theorem ask_gathered (s : Sources Id) (r : Request) (ts : List Tier)
    (hn : Tier.namingHeuristic ∉ ts)
    (hreq : ∀ t ∈ ts, ∀ c e, (t.contribute s r c).run = .error e → t.isRequired r = false)
    (p : Progress) (hc : p.found.isComplete = false) :
    (ask s r (ts ++ [.namingHeuristic]) p).run.map (·.coordinate) =
      .ok (finished (gathered s r (ts ++ [.namingHeuristic]) p.found)) := by
  -- on the tiers that are left, as long as something is missing from the coordinate
  induction ts generalizing p with
  | nil => exact ask_naming s r p hc
  | cons t ts ih =>
    have hrest := ih (fun h => hn (List.mem_cons_of_mem _ h))
      (fun u hu => hreq u (List.mem_cons_of_mem _ hu))
    rw [List.cons_append, gathered_cons]
    cases ha : t.applies r p.found with
    | true =>
      rcases contribute_share t s r p.found ha with hs | ⟨hshare, e, hs⟩
      -- the tier adds its share, after which all others may be left out
      · cases hf : (p.found.fill (t.share s r)).1.isComplete with
        | true =>
          rw [ask_decided _ ha hs hf, gathered_of_complete s r _ hf, finished_of_complete hf]
          rfl
        | false =>
          rw [ask_adopted _ ha hs hf]
          exact hrest (p.adopt t (p.found.fill (t.share s r))) hf
      -- it fails, as if it knew nothing
      · rw [ask_tolerated _ ha hs (hreq t List.mem_cons_self _ e hs), hshare, fill_empty]
        exact hrest (p.tolerate t e) hc
    | false =>
      have hshare := share_of_not_applies s (fun h => hn (h ▸ List.mem_cons_self)) ha
      rw [ask_skipped _ ha, hshare, fill_empty]
      exact hrest p hc

theorem or_eq_firstSet (a b c d : Option String) :
    ((((none : Option String).or (setValue a)).or (setValue b)).or (setValue c)).or (setValue d) =
      firstSet [a, b, c, d] := by
  simp only [firstSet, List.findSome?_cons, List.findSome?_nil]
  cases setValue a <;> cases setValue b <;> cases setValue c <;> cases setValue d <;> rfl

/-- Asking every tier is the merge of the sources. -/
theorem finished_gathered (s : Sources Id) (r : Request) :
    finished (gathered s r Tier.all {}) = s.merged r := by
  have hplain : Plain (gathered s r Tier.all {}) :=
    plain_fill (plain_fill (plain_fill (plain_fill ⟨rfl, rfl⟩ _) _) _) _
  have hart : (gathered s r Tier.all {}).artifactId =
      firstSet [r.artifactId, (s.recorded r).artifactField, (s.listed r).artifactField,
        some (s.artifactId r.key).run] := by
    rw [← or_eq_firstSet, Tier.all, gathered_cons, gathered_cons, gathered_cons, gathered_cons]
    simp only [gathered, List.foldl_nil, Coordinate.artifactId_fill]
    rfl
  have hver : (gathered s r Tier.all {}).version =
      firstSet [r.version, (s.recorded r).versionField, (s.listed r).versionField, none] := by
    rw [← or_eq_firstSet, Tier.all, gathered_cons, gathered_cons, gathered_cons, gathered_cons]
    simp only [gathered, List.foldl_nil, Coordinate.version_fill]
    rfl
  have hthree (a b c : Option String) : firstSet [a, b, c, none] = firstSet [a, b, c] := by
    simp only [firstSet, List.findSome?_cons, List.findSome?_nil]
    cases setValue a <;> cases setValue b <;> cases setValue c <;> rfl
  rw [hthree] at hver
  -- from here on only the fields of what was gathered matter
  generalize gathered s r Tier.all {} = c at hplain hart hver
  rw [Sources.merged, ← hart, ← hver]
  cases ha : c.artifactId with
  | none => exact finished_of_incomplete (by simp [Coordinate.isComplete, ha])
  | some a =>
    cases hv : c.version with
    | none => exact finished_of_incomplete (by simp [Coordinate.isComplete, hv])
    | some v =>
      have hc : c = ⟨some a, some v⟩ := by
        rw [← ha, ← hv, ← hplain.1, ← hplain.2]
      rw [finished_of_complete (by simp [Coordinate.isComplete, ha, hv]), hc]

/-- Only the catalog is ever required, and only under force. -/
theorem required_failure {t : Tier} {s : Sources Id} {r : Request} {c : Coordinate}
    {e : SourceError} (he : (t.contribute s r c).run = .error e) (hr : t.isRequired r = true) :
    r.forced = true ∧ ∃ e', (s.catalog r.hostVersion r.forced).run = .error e' := by
  cases t with
  | catalog =>
    refine ⟨hr, ?_⟩
    cases hs : (s.catalog r.hostVersion r.forced).run with
    | error e' => exact ⟨e', rfl⟩
    | ok listed =>
      rw [contribute_catalog c hs] at he
      cases he
  | callerInput => cases hr
  | identifierStore => cases hr
  | namingHeuristic => cases hr

/-- Under force, a caller who does not know both fields depends on the catalog. -/
theorem resolve_of_failed_catalog {s : Sources Id} {r : Request} {e : CatalogError}
    (hr : r.validate = .ok ()) (hf : r.forced = true) (hk : r.known.isComplete = false)
    (he : (s.catalog r.hostVersion r.forced).run = .error e) :
    (resolve s r).run = .error (.sourceFailed .catalog (.catalog e)) := by
  have hfill : (Coordinate.fill {} r.known).1.isComplete = false := by
    rw [Coordinate.isComplete, Coordinate.artifactId_fill, Coordinate.version_fill]
    exact hk
  rw [resolve, resolveFrom, hr]
  change (ask s r [.callerInput, .identifierStore, .catalog, .namingHeuristic] {}).run = _
  -- the caller does not know enough, and the ledger is not listened to under force
  rw [ask_adopted _ rfl rfl hfill, ask_skipped _ (by simp [Tier.applies, hf])]
  exact ask_aborted _ rfl (by simp [Tier.contribute, he]) hf

/-- A caller who knows both fields gets them back, whatever the sources would say. -/
theorem resolve_of_known {s : Sources Id} {r : Request} (hr : r.validate = .ok ())
    (hk : r.known.isComplete = true) :
    (resolve s r).run.map (·.coordinate) = .ok (s.merged r) := by
  have hfill : (Coordinate.fill {} r.known).1.isComplete = true := by
    rw [Coordinate.isComplete, Coordinate.artifactId_fill, Coordinate.version_fill]
    exact hk
  have hg : gathered s r Tier.all {} = (Coordinate.fill {} r.known).1 :=
    gathered_of_complete s r _ hfill
  rw [← finished_gathered, hg, finished_of_complete hfill, resolve, resolveFrom, hr]
  change (ask s r [.callerInput, .identifierStore, .catalog, .namingHeuristic] {}).run.map _ = _
  rw [ask_decided _ rfl rfl hfill]
  rfl

/-- Without a failure that counts, the cascade ends with the merge of the sources. -/
theorem resolve_of_no_failure {s : Sources Id} {r : Request} (hr : r.validate = .ok ())
    (hf : ∀ e, (s.catalog r.hostVersion r.forced).run = .error e → r.forced = false) :
    (resolve s r).run.map (·.coordinate) = .ok (s.merged r) := by
  have hreq : ∀ t ∈ [Tier.callerInput, .identifierStore, .catalog], ∀ c e,
      (t.contribute s r c).run = .error e → t.isRequired r = false := by
    intro t _ c e he
    cases hq : t.isRequired r with
    | false => rfl
    | true =>
      obtain ⟨hforced, e', he'⟩ := required_failure he hq
      rw [hf e' he'] at hforced
      cases hforced
  rw [← finished_gathered, resolve, resolveFrom, hr]
  exact ask_gathered s r [.callerInput, .identifierStore, .catalog] (by decide) hreq {} rfl

/-- Of an accepted request the cascade gives exactly the answer of the merge, whatever the ledger,
the catalog and the naming convention say: stopping at the first complete coordinate changes
nothing. -/
theorem resolve_eq_eager_merge (s : Sources Id) (r : Request) (hr : r.validate = .ok ()) :
    (resolve s r).run.map (·.coordinate) = s.eager r := by
  have hknown : r.known.isComplete = true ↔
      (setValue r.artifactId).isSome ∧ (setValue r.version).isSome := Bool.and_eq_true_iff
  cases hs : (s.catalog r.hostVersion r.forced).run with
  | ok listed =>
    rw [Sources.eager, hs]
    exact resolve_of_no_failure hr (fun e he => by rw [hs] at he; cases he)
  | error e =>
    -- a failure of the catalog counts only if it is asked for, which it is not when the caller
    -- knows both fields, and only under force
    by_cases hk : r.known.isComplete = true
    · rw [Sources.eager, hs]
      simp only [hknown.mp hk, and_self, not_true_eq_false, and_false, if_false]
      exact resolve_of_known hr hk
    · rw [Sources.eager, hs]
      simp only [← hknown, hk, Bool.false_eq_true, not_false_eq_true, and_true]
      cases hf : r.forced with
      | true =>
        rw [resolve_of_failed_catalog hr hf (eq_false_of_ne_true hk) hs]
        rfl
      | false => exact resolve_of_no_failure hr (fun _ _ => hf)

/-- The version comes from the ledger, whose record leaves the artifact id to the catalog. -/
theorem resolve_eq_eager_merge_of_halves :
    let r : Request := ⟨"0.24.1", "stripe", some "", none, false⟩
    let s : Sources Id := {
      records := .ok [{ key := "adyen", version := some "1.0.0" }, { key := "stripe" },
        { key := "stripe", artifactId := some "", version := some "4.0.1" }]
      catalog := fun _ _ => .ok ⟨"0.24", [⟨"stripe", none, ⟨some "stripe-plugin", some "8.0.0"⟩⟩]⟩
      artifactId := fun key => key ++ "-guess" }
    r.validate = .ok () ∧ s.eager r = .ok (some ⟨some "stripe-plugin", some "4.0.1"⟩) ∧
      (resolve s r).run.map (·.coordinate) = s.eager r :=
  ⟨by rfl, by rfl, resolve_eq_eager_merge _ _ (by rfl)⟩

end PluginResolution.Resolution
