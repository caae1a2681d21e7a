import PluginResolution.Proofs.SourceCalls
import PluginResolution.Proofs.UntouchedFiles
import Mathlib.Data.List.Nodup

namespace PluginResolution.Resolution

inductive Effect where
  | passedOver
  | nothing
  | filled
  | failed (e : SourceError)
  deriving DecidableEq

structure Visit where
  tier : Tier
  effect : Effect
  found : Coordinate
  deriving DecidableEq

namespace Visit

def isRun (v : Visit) : Bool :=
  v.effect ≠ .passedOver

def contributor? (v : Visit) : Option Tier :=
  match v.effect with
  | .filled => some v.tier
  | _ => none

def degraded? (v : Visit) : Option Degraded :=
  match v.effect with
  | .failed e => some ⟨v.tier, e.message⟩
  | _ => none

def adopted (t : Tier) (filled : Coordinate × Bool) : Visit :=
  ⟨t, if filled.2 then .filled else .nothing, filled.1⟩

end Visit

def tiersRun (visits : List Visit) : List Tier :=
  (visits.filter Visit.isRun).map Visit.tier

section Noted

variable {m : Type → Type} [Monad m]

def askNoted (s : Sources m) (r : Request) :
    List Tier → Progress → List Visit → m (Except Error Report × List Visit)
  | [], p, past => return (.ok p.undecided, past)
  | t :: ts, p, past => do
    if t.applies r p.found then
      match ← t.contribute s r p.found with
      | .error e =>
        let past := past ++ [⟨t, .failed e, p.found⟩]
        if t.isRequired r then return (.error (.sourceFailed t e), past)
        else askNoted s r ts (p.tolerate t e) past
      | .ok filled =>
        let p := p.adopt t filled
        let past := past ++ [.adopted t filled]
        if p.found.isComplete then return (.ok (p.decided t), past) else askNoted s r ts p past
    else askNoted s r ts p (past ++ [⟨t, .passedOver, p.found⟩])

def resolveNoted (tiers : List Tier) (s : Sources m) (r : Request) :
    m (Except Error Report × List Visit) :=
  match r.validate with
  | .error fault => return (.error (.invalidRequest fault), [])
  | .ok () => askNoted s r tiers {} []

variable [LawfulMonad m]

theorem ask_eq_noted (s : Sources m) (r : Request) (ts : List Tier) (p : Progress)
    (past : List Visit) : ask s r ts p = Prod.fst <$> askNoted s r ts p past := by
  induction ts generalizing p past with
  | nil => rw [ask, askNoted, map_pure]
  | cons t ts ih =>
    rw [ask, askNoted]
    split
    · rw [map_bind]
      apply bind_congr
      intro answer
      cases answer with
      | error e =>
        dsimp only
        split
        · rw [map_pure]
        · apply ih
      | ok filled =>
        dsimp only
        split
        · rw [map_pure]
        · apply ih
    · apply ih

/-- Taking notes changes nothing. -/
theorem resolveFrom_eq_noted (tiers : List Tier) (s : Sources m) (r : Request) :
    resolveFrom tiers s r = Prod.fst <$> resolveNoted tiers s r := by
  rw [resolveFrom, resolveNoted]
  cases r.validate with
  | error fault => rw [map_pure]
  | ok => apply ask_eq_noted

end Noted

section Filling

def setFields (c : Coordinate) : Nat :=
  c.artifactId.isSome.toNat + c.version.isSome.toNat

theorem setFields_le (c : Coordinate) : setFields c ≤ 2 := by
  have ha := Bool.toNat_le c.artifactId.isSome
  have hv := Bool.toNat_le c.version.isSome
  rw [setFields]
  omega

theorem fill_of_not_adopted {c source : Coordinate} (h : (c.fill source).2 = false) :
    (c.fill source).1 = c := by
  have hart (d : Coordinate) (value : Option String) (hd : (d.fillArtifactId value).2 = false) :
      (d.fillArtifactId value).1 = d := by
    unfold Coordinate.fillArtifactId at hd ⊢
    split
    · simp_all
    · rfl
  have hver (d : Coordinate) (value : Option String) (hd : (d.fillVersion value).2 = false) :
      (d.fillVersion value).1 = d := by
    unfold Coordinate.fillVersion at hd ⊢
    split
    · simp_all
    · rfl
  obtain ⟨ha, hv⟩ := Bool.or_eq_false_iff.mp h
  calc (c.fill source).1
      = ((c.fillArtifactId source.artifactId).1.fillVersion source.version).1 := rfl
    _ = (c.fillArtifactId source.artifactId).1 := hver _ _ hv
    _ = c := hart _ _ ha

/-- What is adopted sets a field that was not set. -/
theorem setFields_of_adopted {c source : Coordinate} (h : (c.fill source).2 = true) :
    setFields c < setFields (c.fill source).1 := by
  rw [setFields, setFields, Coordinate.artifactId_fill, Coordinate.version_fill]
  have hset (v : Option String) : setValue (setValue v) = setValue v :=
    Coordinate.setValue_setValue v
  unfold Coordinate.fill Coordinate.fillArtifactId Coordinate.fillVersion at h
  simp only [Coordinate.artifactId, Coordinate.version, hset] at h ⊢
  cases hc : setValue c.artifactField <;> cases hd : setValue c.versionField <;>
    cases hs : setValue source.artifactField <;> cases ht : setValue source.versionField <;>
    simp_all

theorem complete_of_plain {c : Coordinate} (hp : Plain c) (hc : c.isComplete = true) :
    ∃ a v, c = ⟨some a, some v⟩ ∧ a ≠ "" ∧ v ≠ "" := by
  obtain ⟨hart, hver⟩ := Bool.and_eq_true_iff.mp hc
  obtain ⟨a, ha⟩ := Option.isSome_iff_exists.mp hart
  obtain ⟨v, hv⟩ := Option.isSome_iff_exists.mp hver
  have hnonempty {field : Option String} {x : String} (h : setValue field = some x) : x ≠ "" := by
    simpa using (Option.filter_eq_some_iff.mp h).2
  refine ⟨a, v, ?_, hnonempty ha, hnonempty hv⟩
  calc c = ⟨c.artifactField, c.versionField⟩ := rfl
    _ = ⟨some a, some v⟩ := by rw [hp.1, hp.2, ha, hv]

end Filling

structure Tallied (past : List Visit) (p : Progress) : Prop where
  contributors : p.contributors = past.filterMap Visit.contributor?
  degraded : p.degraded = past.filterMap Visit.degraded?
  failing : ∀ d ∈ p.degraded, d.tier = .identifierStore ∨ d.tier = .catalog
  plain : Plain p.found
  counted : p.contributors.length ≤ setFields p.found

/-- The cascade goes on: something was missing at every turn. -/
structure Open (past : List Visit) (p : Progress) : Prop where
  tallied : Tallied past p
  missed : ∀ v ∈ past, v.found.isComplete = false
  missing : p.found.isComplete = false

inductive Ending (ts : List Tier) (visits : List Visit) : Report → Prop where
  | undecided {p : Progress} (kept : Open visits p) (all : visits.map Visit.tier = ts) :
      Ending ts visits p.undecided
  | decided {p : Progress} {t : Tier} (tallied : Tallied visits p)
      (complete : p.found.isComplete = true) (last : p.contributors.getLast? = some t)
      (front : visits.map Visit.tier <+: ts) : Ending ts visits (p.decided t)

section Steps

variable {past : List Visit} {p : Progress} {t : Tier}

theorem open_nil : Open [] {} where
  tallied := ⟨rfl, rfl, by simp, ⟨rfl, rfl⟩, by simp⟩
  missed := by simp
  missing := rfl

theorem Open.passOver (h : Open past p) (t : Tier) :
    Open (past ++ [⟨t, .passedOver, p.found⟩]) p where
  tallied := by
    obtain ⟨hcontributors, hdegraded, hfailing, hplain, hcounted⟩ := h.tallied
    refine ⟨?_, ?_, hfailing, hplain, hcounted⟩
    · simp [hcontributors, Visit.contributor?]
    · simp [hdegraded, Visit.degraded?]
  missed := by
    intro v hv
    rcases List.mem_append.mp hv with hv | hv
    · exact h.missed v hv
    · rw [List.mem_singleton.mp hv]
      exact h.missing
  missing := h.missing

theorem Open.tolerate (h : Open past p) {e : SourceError}
    (ht : t = .identifierStore ∨ t = .catalog) :
    Open (past ++ [⟨t, .failed e, p.found⟩]) (p.tolerate t e) where
  tallied := by
    obtain ⟨hcontributors, hdegraded, hfailing, hplain, hcounted⟩ := h.tallied
    refine ⟨?_, ?_, ?_, hplain, hcounted⟩
    · simp [Progress.tolerate, hcontributors, Visit.contributor?]
    · simp [Progress.tolerate, hdegraded, Visit.degraded?]
    · intro d hd
      rcases List.mem_append.mp hd with hd | hd
      · exact hfailing d hd
      · rw [List.mem_singleton.mp hd]
        exact ht
  missed := by
    intro v hv
    rcases List.mem_append.mp hv with hv | hv
    · exact h.missed v hv
    · rw [List.mem_singleton.mp hv]
      exact h.missing
  missing := h.missing

/-- A tier that adopts something is noted, and a field more is set then. -/
theorem Tallied.adopt (h : Tallied past p) (source : Coordinate) :
    Tallied (past ++ [.adopted t (p.found.fill source)]) (p.adopt t (p.found.fill source)) := by
  obtain ⟨hcontributors, hdegraded, hfailing, hplain, hcounted⟩ := h
  refine ⟨?_, ?_, hfailing, plain_fill hplain source, ?_⟩
  · cases hadopted : (p.found.fill source).2 <;>
      simp [Progress.adopt, Visit.adopted, Visit.contributor?, hadopted, hcontributors]
  · cases hadopted : (p.found.fill source).2 <;>
      simp [Progress.adopt, Visit.adopted, Visit.degraded?, hadopted, hdegraded]
  · cases hadopted : (p.found.fill source).2 with
    | false =>
      simp only [Progress.adopt, hadopted, Bool.false_eq_true, if_false,
        fill_of_not_adopted hadopted]
      exact hcounted
    | true =>
      have hmore := setFields_of_adopted hadopted
      simp only [Progress.adopt, hadopted, if_true, List.length_append, List.length_singleton]
      omega

theorem Open.adopt (h : Open past p) {source : Coordinate}
    (hc : (p.found.fill source).1.isComplete = false) :
    Open (past ++ [.adopted t (p.found.fill source)]) (p.adopt t (p.found.fill source)) where
  tallied := h.tallied.adopt source
  missed := by
    intro v hv
    rcases List.mem_append.mp hv with hv | hv
    · exact h.missed v hv
    · rw [List.mem_singleton.mp hv]
      exact hc
  missing := hc

/-- The tier with which nothing is missing any more has filled a field. -/
theorem Open.last_of_complete (h : Open past p) {source : Coordinate}
    (hc : (p.found.fill source).1.isComplete = true) :
    (p.adopt t (p.found.fill source)).contributors.getLast? = some t := by
  cases hadopted : (p.found.fill source).2 with
  | false =>
    rw [fill_of_not_adopted hadopted, h.missing] at hc
    cases hc
  | true => simp [Progress.adopt, hadopted]

end Steps

section Runs

variable {m : Type → Type} [Monad m] {R : Results m} {s : Sources m} {r : Request}

/-- What a tier can answer: it fails, which only two of them can, or it fills what is found. -/
theorem contribute_cases {t : Tier} {c : Coordinate}
    {answer : Except SourceError (Coordinate × Bool)}
    (h : R.may (t.contribute s r c) answer) :
    (∃ e, answer = .error e ∧ (t = .identifierStore ∨ t = .catalog)) ∨
      ∃ source, answer = .ok (c.fill source) := by
  cases t with
  | callerInput => exact .inr ⟨r.known, R.of_pure h⟩
  | identifierStore =>
    obtain ⟨records, -, hanswer⟩ := R.of_bind h
    cases records with
    | error e => exact .inl ⟨_, R.of_pure hanswer, .inl rfl⟩
    | ok records =>
      dsimp only at hanswer
      cases hf : Tier.findRecord? r.key records with
      | none =>
        rw [hf] at hanswer
        exact .inr ⟨{}, R.of_pure hanswer⟩
      | some record =>
        rw [hf] at hanswer
        exact .inr ⟨record.coordinate, R.of_pure hanswer⟩
  | catalog =>
    obtain ⟨listed, -, hanswer⟩ := R.of_bind h
    cases listed with
    | error e => exact .inl ⟨_, R.of_pure hanswer, .inr rfl⟩
    | ok listed =>
      dsimp only at hanswer
      cases hf : listed.find? r.key with
      | none =>
        rw [hf] at hanswer
        exact .inr ⟨{}, R.of_pure hanswer⟩
      | some entry =>
        rw [hf] at hanswer
        exact .inr ⟨entry.coordinate, R.of_pure hanswer⟩
  | namingHeuristic =>
    obtain ⟨guess, -, hanswer⟩ := R.of_bind h
    refine .inr ⟨⟨some guess, none⟩, ?_⟩
    rw [← fillArtifactId_eq_fill]
    exact R.of_pure hanswer

/-- Whatever the sources answer, a cascade that has kept its notes so far ends in a report that
agrees with all of them. -/
theorem ending_of_asked {ts : List Tier} {p : Progress} {past visits : List Visit} {report : Report}
    (hp : Open past p) (h : R.may (askNoted s r ts p past) (.ok report, visits)) :
    Ending (past.map Visit.tier ++ ts) visits report := by
  -- on the tiers that are left; each turn moves one of them to the notes
  induction ts generalizing p past with
  | nil =>
    cases R.of_pure h
    exact .undecided hp (by rw [List.append_nil])
  | cons t ts ih =>
    have hturn (effect : Effect) (found : Coordinate) :
        (past ++ [Visit.mk t effect found]).map Visit.tier ++ ts =
          past.map Visit.tier ++ t :: ts := by
      rw [List.map_append, List.append_assoc, List.map_singleton, List.singleton_append]
    rw [askNoted] at h
    split at h
    · obtain ⟨answer, hanswer, hrest⟩ := R.of_bind h
      rcases contribute_cases hanswer with ⟨e, rfl, ht⟩ | ⟨source, rfl⟩
      · dsimp only at hrest
        split at hrest
        · cases R.of_pure hrest
        · rw [← hturn]
          exact ih (hp.tolerate ht) hrest
      · dsimp only at hrest
        split at hrest
        next hc =>
          cases R.of_pure hrest
          refine .decided (hp.tallied.adopt source) hc (hp.last_of_complete hc) ?_
          rw [← hturn]
          exact List.prefix_append _ _
        next hc =>
          rw [← hturn]
          exact ih (hp.adopt (eq_false_of_ne_true hc)) hrest
    · rw [← hturn]
      exact ih (hp.passOver t) h

theorem ending_of_resolved {ts : List Tier} {visits : List Visit} {report : Report}
    (h : R.may (resolveNoted ts s r) (.ok report, visits)) : Ending ts visits report := by
  rw [resolveNoted] at h
  cases hr : r.validate with
  | error fault =>
    rw [hr] at h
    cases R.of_pure h
  | ok =>
    rw [hr] at h
    exact ending_of_asked open_nil h

end Runs

def Tier.IsMoreTrusted (t u : Tier) : Prop :=
  Tier.all.idxOf t < Tier.all.idxOf u

instance (t u : Tier) : Decidable (t.IsMoreTrusted u) :=
  inferInstanceAs (Decidable (_ < _))

namespace Report

def degradedTiers (report : Report) : List Tier :=
  report.degraded.map Degraded.tier

/-- What a report says agrees with the turns that the tiers of a list have had. -/
structure Accords (report : Report) (ts : List Tier) (visits : List Visit) : Prop where
  turns : visits.map Visit.tier <+: ts
  decided : report.coordinate.isSome = true ↔ report.decidedBy.isSome = true
  fields : ∀ c, report.coordinate = some c → ∃ a v, c = ⟨some a, some v⟩ ∧ a ≠ "" ∧ v ≠ ""
  decider : report.decidedBy.isSome = true → report.decidedBy = report.contributors.getLast?
  few : report.contributors.length ≤ 2
  listed : ∀ t, t ∈ report.contributors ∨ t ∈ report.degradedTiers → t ∈ ts
  contributors : report.contributors.Sublist (tiersRun visits)
  degraded : report.degradedTiers.Sublist (tiersRun visits)
  missing : report.coordinate = none →
    visits.map Visit.tier = ts ∧ ∀ v ∈ visits, v.found.isComplete = false

/-- The tiers are named in the order of trust, and none of them both filled a field and failed. -/
structure Ranked (report : Report) : Prop where
  contributors : report.contributors.Pairwise Tier.IsMoreTrusted
  degraded : report.degradedTiers.Pairwise Tier.IsMoreTrusted
  disjoint : ∀ t ∈ report.contributors, t ∉ report.degradedTiers
  failing : ∀ t ∈ report.degradedTiers, t = .identifierStore ∨ t = .catalog

end Report

section Shape

variable {ts : List Tier} {visits : List Visit} {report : Report}

/-- What is read off the turns of tiers that were asked keeps their order. -/
theorem filterMap_sublist_tiersRun {f : Visit → Option Tier}
    (hf : ∀ v t, f v = some t → v.isRun = true ∧ v.tier = t) (visits : List Visit) :
    (visits.filterMap f).Sublist (tiersRun visits) := by
  induction visits with
  | nil => exact List.nil_sublist _
  | cons v visits ih =>
    have hlater : (tiersRun visits).Sublist (tiersRun (v :: visits)) :=
      ((List.sublist_cons_self v visits).filter _).map _
    cases hv : f v with
    | none =>
      rw [List.filterMap_cons_none hv]
      exact ih.trans hlater
    | some t =>
      obtain ⟨hrun, ht⟩ := hf v t hv
      rw [List.filterMap_cons_some hv, tiersRun, List.filter_cons_of_pos hrun, List.map_cons, ht]
      exact ih.cons_cons t

theorem tiersRun_sublist (visits : List Visit) :
    (tiersRun visits).Sublist (visits.map Visit.tier) :=
  List.filter_sublist.map Visit.tier

theorem contributor_eq_some {v : Visit} {t : Tier} (h : v.contributor? = some t) :
    v.isRun = true ∧ v.tier = t := by
  unfold Visit.contributor? at h
  split at h <;> simp_all [Visit.isRun]

theorem degraded_eq_some {v : Visit} {t : Tier}
    (h : v.degraded?.map Degraded.tier = some t) : v.isRun = true ∧ v.tier = t := by
  unfold Visit.degraded? at h
  split at h <;> simp_all [Visit.isRun]

theorem Tallied.contributors_sublist {p : Progress} (h : Tallied visits p) :
    p.contributors.Sublist (tiersRun visits) := by
  rw [h.contributors]
  exact filterMap_sublist_tiersRun (fun _ _ => contributor_eq_some) visits

theorem Tallied.degraded_sublist {p : Progress} (h : Tallied visits p) :
    (p.degraded.map Degraded.tier).Sublist (tiersRun visits) := by
  rw [h.degraded, List.map_filterMap]
  exact filterMap_sublist_tiersRun (fun _ _ => degraded_eq_some) visits

/-- Both kinds of report have what the notes say of contributors and failures. -/
theorem Ending.tallied (h : Ending ts visits report) :
    visits.map Visit.tier <+: ts ∧ ∃ p, Tallied visits p ∧
      report.contributors = p.contributors ∧ report.degraded = p.degraded := by
  cases h with
  | undecided kept all => exact ⟨all ▸ List.prefix_rfl, _, kept.tallied, rfl, rfl⟩
  | decided tallied complete last front => exact ⟨front, _, tallied, rfl, rfl⟩

theorem Ending.accords (h : Ending ts visits report) : report.Accords ts visits := by
  obtain ⟨hfront, p, hp, hcontributors, hdegraded⟩ := h.tallied
  have hcontributed : report.contributors.Sublist (tiersRun visits) :=
    hcontributors ▸ hp.contributors_sublist
  have hfailed : report.degradedTiers.Sublist (tiersRun visits) := by
    rw [Report.degradedTiers, hdegraded]
    exact hp.degraded_sublist
  have hlisted : ∀ t ∈ tiersRun visits, t ∈ ts := fun t ht =>
    hfront.subset ((tiersRun_sublist visits).subset ht)
  refine {
    turns := hfront
    few := hcontributors ▸ Nat.le_trans hp.counted (setFields_le p.found)
    listed := fun t ht => ht.elim (fun h => hlisted t (hcontributed.subset h))
      (fun h => hlisted t (hfailed.subset h))
    contributors := hcontributed
    degraded := hfailed
    decided := ?_, fields := ?_, decider := ?_, missing := ?_ }
  · cases h with
    | undecided kept all => exact Iff.rfl
    | decided tallied complete last front => exact iff_of_true rfl rfl
  · intro c hc
    cases h with
    | undecided kept all => cases hc
    | decided tallied complete last front =>
      cases hc
      exact complete_of_plain tallied.plain complete
  · intro hsome
    cases h with
    | undecided kept all => cases hsome
    | decided tallied complete last front => exact last.symm
  · intro hnone
    cases h with
    | undecided kept all => exact ⟨all, kept.missed⟩
    | decided tallied complete last front => cases hnone

/-- If the list itself goes by trust, so does the report. -/
theorem Ending.ranked (h : Ending ts visits report) (hts : ts.Pairwise Tier.IsMoreTrusted) :
    report.Ranked := by
  obtain ⟨hfront, p, hp, hcontributors, hdegraded⟩ := h.tallied
  have hvisits : (visits.map Visit.tier).Pairwise Tier.IsMoreTrusted := hts.sublist hfront.sublist
  have hrun : (tiersRun visits).Pairwise Tier.IsMoreTrusted :=
    hvisits.sublist (tiersRun_sublist visits)
  refine {
    contributors := hcontributors ▸ hrun.sublist hp.contributors_sublist
    degraded := hrun.sublist h.accords.degraded
    disjoint := ?_, failing := ?_ }
  · -- a tier that goes by trust has one turn only, of which one thing came
    intro t hcontributed hfailed
    rw [hcontributors, hp.contributors] at hcontributed
    rw [Report.degradedTiers, hdegraded, hp.degraded, List.map_filterMap] at hfailed
    obtain ⟨v, hv, hfilled⟩ := List.mem_filterMap.mp hcontributed
    obtain ⟨w, hw, hlost⟩ := List.mem_filterMap.mp hfailed
    have hnodup : (visits.map Visit.tier).Nodup := hvisits.imp fun hlt heq => by
      rw [heq] at hlt
      exact Nat.lt_irrefl _ hlt
    have hsame : v = w := List.inj_on_of_nodup_map hnodup hv hw
      ((contributor_eq_some hfilled).2.trans (degraded_eq_some hlost).2.symm)
    rw [← hsame] at hlost
    unfold Visit.contributor? at hfilled
    unfold Visit.degraded? at hlost
    split at hfilled <;> simp_all
  · intro t ht
    obtain ⟨d, hd, rfl⟩ := List.mem_map.mp ht
    exact hp.failing d (hdegraded ▸ hd)

end Shape

namespace Behaviour

def outcomeFrom (b : Behaviour) (ts : List Tier) (r : Request) : Except Error Report :=
  ((resolveFrom ts b.sources r).run []).run.1

def visits (b : Behaviour) (ts : List Tier) (r : Request) : List Visit :=
  ((resolveNoted ts b.sources r).run []).run.1.2

theorem noted_eq (b : Behaviour) (ts : List Tier) (r : Request) :
    ((resolveNoted ts b.sources r).run []).run.1 = (b.outcomeFrom ts r, b.visits ts r) := by
  rw [outcomeFrom, resolveFrom_eq_noted]
  rfl

end Behaviour

/-- Every report agrees with the turns of the tiers, whichever tiers are listed and whatever the
sources answer; and over the standard list it goes by trust. -/
theorem reports_wellFormed (b : Behaviour) (ts : List Tier) (r : Request) (report : Report)
    (h : b.outcomeFrom ts r = .ok report) :
    report.Accords ts (b.visits ts r) ∧ (ts = Tier.all → report.Ranked) := by
  have hnoted := b.noted_eq ts r
  rw [h] at hnoted
  have hend : Ending ts (b.visits ts r) report :=
    ending_of_resolved (R := Results.ofId.withState (List Query)) ⟨[], _, Prod.ext hnoted.symm rfl⟩
  refine ⟨hend.accords, fun hall => hend.ranked ?_⟩
  rw [hall]
  decide

/-- The ledger fails when it is first asked, and later has the version for which the naming
convention was waiting. -/
theorem reports_wellFormed_of_repeated :
    let lost : Ledger.Error := .storage "unexpected end of file"
    let b : Behaviour := fun log q =>
      match q with
      | .records =>
        if log.isEmpty then .error lost
        else .ok [{ key := "stripe", artifactId := some "", version := some "4.0.1" }]
      | .record _ => .error lost
      | .upsert _ => .error lost
      | .remove _ => .error lost
      | .catalog _ _ => .ok ⟨"0.24", []⟩
      | .artifactId key => key ++ "-plugin"
    let ts : List Tier := [.namingHeuristic, .identifierStore, .catalog, .identifierStore,
      .namingHeuristic, .catalog]
    let r : Request := ⟨"0.24.1", "stripe", none, none, false⟩
    let report : Report := ⟨some ⟨some "stripe-plugin", some "4.0.1"⟩, some .namingHeuristic,
      [.identifierStore, .namingHeuristic], [⟨.identifierStore, lost.message⟩]⟩
    b.outcomeFrom ts r = .ok report ∧ report.Accords ts (b.visits ts r) := by
  intro lost b ts r report
  have h : b.outcomeFrom ts r = .ok report := by decide +kernel
  exact ⟨h, (reports_wellFormed b ts r report h).1⟩

end PluginResolution.Resolution
