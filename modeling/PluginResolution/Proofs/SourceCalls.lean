import PluginResolution.Proofs.EagerMerge
import PluginResolution.Proofs.TierSteps

namespace PluginResolution.Resolution

inductive Query where
  | records
  | record (key : String)
  | upsert (record : Ledger.Record)
  | remove (key : String)
  | catalog (hostVersion : String) (forced : Bool)
  | artifactId (key : String)
  deriving DecidableEq

namespace Query

def Answer : Query → Type
  | .records => Except Ledger.Error (List Ledger.Record)
  | .record _ => Except Ledger.Error Ledger.Record
  | .upsert _ => Except Ledger.Error Unit
  | .remove _ => Except Ledger.Error Unit
  | .catalog _ _ => Except CatalogError Catalog
  | .artifactId _ => String

def isOfLedger : Query → Bool
  | .catalog _ _ => false
  | .artifactId _ => false
  | _ => true

def isChange : Query → Bool
  | .upsert _ => true
  | .remove _ => true
  | _ => false

end Query

/-- What the sources answer to a query, given those that were made before. -/
abbrev Behaviour := List Query → (q : Query) → q.Answer

namespace Behaviour

def query (b : Behaviour) (q : Query) : StateM (List Query) q.Answer :=
  fun log => (b log q, log ++ [q])

def sources (b : Behaviour) : Sources (StateM (List Query)) where
  records := b.query .records
  catalog hostVersion forced := b.query (.catalog hostVersion forced)
  artifactId key := b.query (.artifactId key)

def after (b : Behaviour) (log : List Query) : Sources Id where
  records := b log .records
  catalog hostVersion forced := b log (.catalog hostVersion forced)
  artifactId key := b log (.artifactId key)

def outcome (b : Behaviour) (r : Request) : Except Error Report :=
  ((resolve b.sources r).run []).run.1

def calls (b : Behaviour) (r : Request) : List Query :=
  ((resolve b.sources r).run []).run.2

end Behaviour

def Request.Rejected (r : Request) : Prop :=
  Text.isBlankText r.key = true ∨ Text.isBlankText r.hostVersion = true ∨ Text.trim r.key ≠ r.key

instance (r : Request) : Decidable r.Rejected :=
  inferInstanceAs (Decidable (_ ∨ _ ∨ _))

theorem validate_eq_ok_iff (r : Request) : r.validate = .ok () ↔ ¬r.Rejected := by
  unfold Request.validate Request.Rejected
  split
  · simp [*]
  · split
    · simp [*]
    · split <;> simp_all

def Tier.queries (t : Tier) (r : Request) : List Query :=
  match t with
  | .callerInput => []
  | .identifierStore => [.records]
  | .catalog => [.catalog r.hostVersion r.forced]
  | .namingHeuristic => [.artifactId r.key]

variable {b : Behaviour} {r : Request}

/-- A tier gives what its source says in that moment, and makes its query once. -/
theorem contribute_run (b : Behaviour) (t : Tier) (r : Request) (c : Coordinate)
    (log : List Query) :
    (t.contribute b.sources r c).run log =
      pure ((t.contribute (b.after log) r c).run, log ++ t.queries r) := by
  cases t with
  | callerInput =>
    rw [Tier.queries, List.append_nil]
    rfl
  | identifierStore =>
    have hquery : b.sources.records.run log =
        pure ((b.after log).records.run, log ++ [.records]) := rfl
    rw [Tier.contribute, Tier.contribute, StateT.run_bind, hquery, pure_bind, Id.run_bind]
    cases (b.after log).records.run with
    | error e => rfl
    | ok records => cases hf : Tier.findRecord? r.key records <;> simp [hf] <;> rfl
  | catalog =>
    have hquery : (b.sources.catalog r.hostVersion r.forced).run log =
        pure (((b.after log).catalog r.hostVersion r.forced).run,
          log ++ [.catalog r.hostVersion r.forced]) := rfl
    rw [Tier.contribute, Tier.contribute, StateT.run_bind, hquery, pure_bind, Id.run_bind]
    cases ((b.after log).catalog r.hostVersion r.forced).run with
    | error e => rfl
    | ok listed => cases hf : listed.find? r.key <;> simp [hf] <;> rfl
  | namingHeuristic => rfl

section Steps

variable {t : Tier} {ts : List Tier} {p : Progress} {log : List Query}

theorem asked_decided {filled : Coordinate × Bool} (ha : t.applies r p.found = true)
    (hs : (t.contribute (b.after log) r p.found).run = .ok filled)
    (hc : filled.1.isComplete = true) :
    (ask b.sources r (t :: ts) p).run log =
      pure (.ok ((p.adopt t filled).decided t), log ++ t.queries r) := by
  have hrun := contribute_run b t r p.found log
  rw [hs] at hrun
  exact ask_run_decided ha hrun hc

theorem asked_adopted {filled : Coordinate × Bool} (ha : t.applies r p.found = true)
    (hs : (t.contribute (b.after log) r p.found).run = .ok filled)
    (hc : filled.1.isComplete = false) :
    (ask b.sources r (t :: ts) p).run log =
      (ask b.sources r ts (p.adopt t filled)).run (log ++ t.queries r) := by
  have hrun := contribute_run b t r p.found log
  rw [hs] at hrun
  exact ask_run_adopted ha hrun hc

theorem asked_tolerated {e : SourceError} (ha : t.applies r p.found = true)
    (hs : (t.contribute (b.after log) r p.found).run = .error e) (hr : t.isRequired r = false) :
    (ask b.sources r (t :: ts) p).run log =
      (ask b.sources r ts (p.tolerate t e)).run (log ++ t.queries r) := by
  have hrun := contribute_run b t r p.found log
  rw [hs] at hrun
  exact ask_run_tolerated ha hrun hr

theorem asked_aborted {e : SourceError} (ha : t.applies r p.found = true)
    (hs : (t.contribute (b.after log) r p.found).run = .error e) (hr : t.isRequired r = true) :
    (ask b.sources r (t :: ts) p).run log =
      pure (.error (.sourceFailed t e), log ++ t.queries r) := by
  have hrun := contribute_run b t r p.found log
  rw [hs] at hrun
  exact ask_run_aborted ha hrun hr

end Steps

def isAborted : Except Error Report → Bool
  | .error (.sourceFailed _ _) => true
  | _ => false

def lacksArtifact (c : Coordinate) : Bool :=
  c.version.isSome && c.artifactId.isNone

theorem lacksArtifact_of_complete {c : Coordinate} (h : c.isComplete = true) :
    lacksArtifact c = false := by
  have ha : c.artifactId.isSome = true := (Bool.and_eq_true_iff.mp h).1
  rw [lacksArtifact, Option.isNone_eq_false_iff.mpr ha, Bool.and_false]

theorem asked_naming (b : Behaviour) (r : Request) (p : Progress) (log : List Query) :
    ∃ result, (ask b.sources r [.namingHeuristic] p).run log =
        pure (result, log ++ if lacksArtifact p.found then [.artifactId r.key] else []) ∧
      isAborted result = false := by
  have happlies : Tier.namingHeuristic.applies r p.found = lacksArtifact p.found := rfl
  have hs := contribute_namingHeuristic (b.after log) r p.found
  let filled := p.found.fill (Tier.namingHeuristic.share (b.after log) r)
  by_cases ha : lacksArtifact p.found = true
  -- whether the guess is adopted or not, no tier is left
  · rw [if_pos ha]
    by_cases hc : filled.1.isComplete = true
    · exact ⟨_, asked_decided (happlies.trans ha) hs hc, rfl⟩
    · exact ⟨_, asked_adopted (happlies.trans ha) hs (eq_false_of_ne_true hc), rfl⟩
  · rw [if_neg ha, List.append_nil, ask_run_skipped (happlies.trans (eq_false_of_ne_true ha))]
    exact ⟨_, ask_run_nil, rfl⟩

/-- The catalog is asked once, and after it the naming convention for an artifact id that is still
missing. -/
theorem asked_catalog (b : Behaviour) (r : Request) (p : Progress) (log : List Query) :
    ∃ result, (ask b.sources r [.catalog, .namingHeuristic] p).run log =
      pure (result, log ++ .catalog r.hostVersion r.forced ::
        if !isAborted result && lacksArtifact (p.found.fill ((b.after log).listed r)).1 then
          [.artifactId r.key] else []) := by
  have ha : Tier.catalog.applies r p.found = true := rfl
  have hlog (rest : List Query) : log ++ Tier.catalog.queries r ++ rest =
      log ++ .catalog r.hostVersion r.forced :: rest := List.append_assoc _ _ _
  cases hs : ((b.after log).catalog r.hostVersion r.forced).run with
  | error e =>
    have hfail : (Tier.catalog.contribute (b.after log) r p.found).run = .error (.catalog e) := by
      simp [Tier.contribute, hs]
    have hshare : (b.after log).listed r = {} := by simp only [Sources.listed, hs]
    rw [hshare, fill_empty]
    by_cases hr : Tier.catalog.isRequired r = true
    · exact ⟨_, asked_aborted ha hfail hr⟩
    · rw [asked_tolerated ha hfail (eq_false_of_ne_true hr)]
      obtain ⟨result, hrun, hnot⟩ := asked_naming b r (p.tolerate .catalog (.catalog e))
        (log ++ Tier.catalog.queries r)
      refine ⟨result, ?_⟩
      rw [hrun, hnot, hlog]
      rfl
  | ok listed =>
    have hfill := contribute_catalog p.found hs
    let filled := p.found.fill ((b.after log).listed r)
    by_cases hc : filled.1.isComplete = true
    -- a complete coordinate lacks nothing
    · refine ⟨.ok ((p.adopt .catalog filled).decided .catalog), ?_⟩
      rw [asked_decided ha hfill hc, lacksArtifact_of_complete hc, Bool.and_false]
      rfl
    · rw [asked_adopted ha hfill (eq_false_of_ne_true hc)]
      obtain ⟨result, hrun, hnot⟩ := asked_naming b r (p.adopt .catalog filled)
        (log ++ Tier.catalog.queries r)
      refine ⟨result, ?_⟩
      rw [hrun, hnot, hlog]
      rfl

def Request.ledgerQueries (r : Request) : List Query :=
  if r.forced then [] else [.records]

/-- The ledger is asked once, except under force, and after it the catalog for what is still
missing. -/
theorem asked_ledger (b : Behaviour) (r : Request) (p : Progress) (hp : p.found.isComplete = false)
    (log : List Query) :
    let known := (p.found.fill ((b.after log).recorded r)).1
    let log' := log ++ r.ledgerQueries
    ∃ result, (ask b.sources r [.identifierStore, .catalog, .namingHeuristic] p).run log =
      pure (result, log' ++ if known.isComplete then [] else
        .catalog r.hostVersion r.forced ::
          if !isAborted result && lacksArtifact (known.fill ((b.after log').listed r)).1 then
            [.artifactId r.key] else []) := by
  intro known log'
  have hmissing (rest : List Query) : (if p.found.isComplete then [] else rest) = rest :=
    if_neg (ne_true_of_eq_false hp)
  cases hf : r.forced with
  | true =>
    have ha : Tier.identifierStore.applies r p.found = false := by simp [Tier.applies, hf]
    have hshare : (b.after log).recorded r = {} := by simp only [Sources.recorded, hf, if_true]
    have hknown : known = p.found := by simp only [known, hshare, fill_empty]
    have hlog : log' = log := by simp [log', Request.ledgerQueries, hf]
    obtain ⟨result, hrun⟩ := asked_catalog b r p log
    refine ⟨result, ?_⟩
    rw [ask_run_skipped ha, hrun, hknown, hlog, hmissing, hf]
  | false =>
    have ha : Tier.identifierStore.applies r p.found = true := by simp [Tier.applies, hf]
    have hlog : log ++ Tier.identifierStore.queries r = log' := by
      simp [log', Request.ledgerQueries, hf, Tier.queries]
    cases hs : (b.after log).records.run with
    | error e =>
      have hfail : (Tier.identifierStore.contribute (b.after log) r p.found).run =
          .error (.ledger e) := by
        simp [Tier.contribute, hs]
      have hshare : (b.after log).recorded r = {} := by
        simp only [Sources.recorded, hf, hs, Bool.false_eq_true, if_false]
      have hknown : known = p.found := by simp only [known, hshare, fill_empty]
      obtain ⟨result, hrun⟩ := asked_catalog b r (p.tolerate .identifierStore (.ledger e)) log'
      refine ⟨result, ?_⟩
      rw [asked_tolerated ha hfail rfl, hlog, hrun, hknown, hmissing, hf]
      rfl
    | ok records =>
      have hfill := contribute_identifierStore p.found hf hs
      let filled := p.found.fill ((b.after log).recorded r)
      by_cases hc : known.isComplete = true
      · refine ⟨.ok ((p.adopt .identifierStore filled).decided .identifierStore), ?_⟩
        rw [asked_decided ha hfill hc, if_pos hc, List.append_nil, hlog]
      · obtain ⟨result, hrun⟩ := asked_catalog b r (p.adopt .identifierStore filled) log'
        refine ⟨result, ?_⟩
        rw [asked_adopted ha hfill (eq_false_of_ne_true hc), hlog, hrun, if_neg hc, hf]
        rfl

namespace Behaviour

def knownByLedger (b : Behaviour) (r : Request) : Coordinate :=
  let recorded := (b.after []).recorded r
  ⟨firstSet [r.artifactId, recorded.artifactField], firstSet [r.version, recorded.versionField]⟩

def knownByCatalog (b : Behaviour) (r : Request) : Coordinate :=
  let recorded := (b.after []).recorded r
  let listed := (b.after r.ledgerQueries).listed r
  ⟨firstSet [r.artifactId, recorded.artifactField, listed.artifactField],
    firstSet [r.version, recorded.versionField, listed.versionField]⟩

def needed (b : Behaviour) (r : Request) : List Query :=
  if r.Rejected ∨ r.known.isComplete then []
  else
    r.ledgerQueries ++
    (if (b.knownByLedger r).isComplete then [] else [.catalog r.hostVersion r.forced]) ++
    (if !isAborted (b.outcome r) && lacksArtifact (b.knownByCatalog r) then
      [.artifactId r.key] else [])

end Behaviour

theorem firstSet_cons (v : Option String) (vs : List (Option String)) :
    firstSet (v :: vs) = (setValue v).or (firstSet vs) := by
  rw [firstSet, List.findSome?_cons]
  cases setValue v <;> rfl

theorem setValue_firstSet (vs : List (Option String)) :
    setValue (firstSet vs) = firstSet vs := by
  induction vs with
  | nil => rfl
  | cons v vs ih =>
    rw [firstSet_cons]
    cases h : setValue v with
    | none => exact ih
    | some a =>
      rw [Option.some_or, ← h, Coordinate.setValue_setValue]

/-- Only what is set in a coordinate counts. -/
theorem isComplete_congr {c d : Coordinate} (ha : c.artifactId = d.artifactId)
    (hv : c.version = d.version) : c.isComplete = d.isComplete := by
  rw [Coordinate.isComplete, Coordinate.isComplete, ha, hv]

theorem lacksArtifact_congr {c d : Coordinate} (ha : c.artifactId = d.artifactId)
    (hv : c.version = d.version) : lacksArtifact c = lacksArtifact d := by
  rw [lacksArtifact, lacksArtifact, ha, hv]

/-- What the ledger adds to what the caller knows. -/
theorem knownByLedger_eq (b : Behaviour) (r : Request) :
    let known := ((Coordinate.fill {} r.known).1.fill ((b.after []).recorded r)).1
    known.artifactId = (b.knownByLedger r).artifactId ∧
      known.version = (b.knownByLedger r).version := by
  intro known
  have hfirst (v w : Option String) :
      ((none : Option String).or (setValue v)).or (setValue w) = setValue (firstSet [v, w]) := by
    have hnone : firstSet [] = none := rfl
    rw [setValue_firstSet, firstSet_cons, firstSet_cons, hnone, Option.or_none, Option.none_or]
  constructor
  · rw [Coordinate.artifactId_fill, Coordinate.artifactId_fill]
    apply hfirst
  · rw [Coordinate.version_fill, Coordinate.version_fill]
    apply hfirst

/-- What the catalog adds to that. -/
theorem knownByCatalog_eq (b : Behaviour) (r : Request) :
    let known := ((Coordinate.fill {} r.known).1.fill ((b.after []).recorded r)).1
    let listed := (b.after r.ledgerQueries).listed r
    (known.fill listed).1.artifactId = (b.knownByCatalog r).artifactId ∧
      (known.fill listed).1.version = (b.knownByCatalog r).version := by
  intro known listed
  have hfirst (v w x : Option String) :
      (((none : Option String).or (setValue v)).or (setValue w)).or (setValue x) =
        setValue (firstSet [v, w, x]) := by
    have hnone : firstSet [] = none := rfl
    rw [setValue_firstSet, firstSet_cons, firstSet_cons, firstSet_cons, hnone, Option.or_none,
      Option.none_or, Option.or_assoc]
  constructor
  · rw [Coordinate.artifactId_fill, Coordinate.artifactId_fill, Coordinate.artifactId_fill]
    apply hfirst
  · rw [Coordinate.version_fill, Coordinate.version_fill, Coordinate.version_fill]
    apply hfirst

theorem resolve_run_of_rejected (b : Behaviour) {r : Request} (h : r.Rejected) :
    ∃ fault, (resolve b.sources r).run [] = pure (.error (.invalidRequest fault), []) := by
  cases hv : r.validate with
  | error fault =>
    refine ⟨fault, ?_⟩
    rw [resolve, resolveFrom, hv]
    rfl
  | ok u => exact absurd h ((validate_eq_ok_iff r).mp hv)

/-- An accepted request goes to the tiers one after the other. -/
theorem resolve_run_of_accepted (b : Behaviour) {r : Request} (h : ¬r.Rejected) :
    (resolve b.sources r).run [] = (ask b.sources r Tier.all {}).run [] := by
  rw [resolve, resolveFrom, (validate_eq_ok_iff r).mpr h]

theorem calls_eq_needed (b : Behaviour) (r : Request) : b.calls r = b.needed r := by
  by_cases hrejected : r.Rejected
  · obtain ⟨fault, hrun⟩ := resolve_run_of_rejected b hrejected
    rw [Behaviour.needed, if_pos (.inl hrejected), Behaviour.calls, hrun]
    rfl
  have hall := resolve_run_of_accepted b hrejected
  have hcaller : (Tier.callerInput.contribute (b.after []) r {}).run =
      .ok (Coordinate.fill {} r.known) := rfl
  have hknown : (Coordinate.fill {} r.known).1.isComplete = r.known.isComplete :=
    isComplete_congr (Coordinate.artifactId_fill {} r.known) (Coordinate.version_fill {} r.known)
  by_cases hc : r.known.isComplete = true
  -- the caller knows both fields
  · have hrun : (ask b.sources r Tier.all {}).run [] = pure (_, []) :=
      asked_decided (p := {}) rfl hcaller (hknown.trans hc)
    rw [Behaviour.needed, if_pos (.inr hc), Behaviour.calls, hall, hrun]
    rfl
  -- something is missing, for which the sources are asked
  · have hmissing := hknown.trans (eq_false_of_ne_true hc)
    have hrun : (ask b.sources r Tier.all {}).run [] = (ask b.sources r _ _).run [] :=
      asked_adopted (p := {}) rfl hcaller hmissing
    obtain ⟨result, hrest⟩ := asked_ledger b r
      (Progress.adopt {} .callerInput (Coordinate.fill {} r.known)) hmissing []
    obtain ⟨hart, hver⟩ := knownByLedger_eq b r
    obtain ⟨hart', hver'⟩ := knownByCatalog_eq b r
    have hlog := hall.trans (hrun.trans hrest)
    have houtcome : b.outcome r = result := congrArg Prod.fst hlog
    have hneither : ¬(r.Rejected ∨ r.known.isComplete = true) := not_or.mpr ⟨hrejected, hc⟩
    rw [Behaviour.calls, hlog, Behaviour.needed, if_neg hneither, houtcome,
      ← isComplete_congr hart hver, ← lacksArtifact_congr hart' hver']
    let known := ((Coordinate.fill {} r.known).1.fill ((b.after []).recorded r)).1
    by_cases hfull : known.isComplete = true
    -- the catalog could add nothing, so nothing is lacking after it either
    · have hlacks (c : Coordinate) : lacksArtifact (known.fill c).1 = false := by
        rw [fill_of_complete hfull, lacksArtifact_of_complete hfull]
      rw [if_pos hfull, hlacks, Bool.and_false]
      change ([] ++ r.ledgerQueries) ++ (if known.isComplete then [] else _) = _
      rw [if_pos hfull]
      simp
    · rw [if_neg hfull]
      change ([] ++ r.ledgerQueries) ++ (if known.isComplete then [] else _) = _
      rw [if_neg hfull, List.nil_append, List.append_assoc]
      rfl

/-- All that can be needed, in the order in which it is asked for. -/
theorem needed_sublist (b : Behaviour) (r : Request) :
    (b.needed r).Sublist (r.ledgerQueries ++
      [.catalog r.hostVersion r.forced, .artifactId r.key]) := by
  have hmaybe (c : Bool) (q : Query) : (if c then [q] else []).Sublist [q] := by
    cases c
    · exact List.nil_sublist _
    · exact List.Sublist.refl _
  have hmaybeNot (c : Bool) (q : Query) : (if c then [] else [q]).Sublist [q] := by
    cases c
    · exact List.Sublist.refl _
    · exact List.nil_sublist _
  unfold Behaviour.needed
  split
  · exact List.nil_sublist _
  · rw [List.append_assoc]
    exact (List.Sublist.refl _).append ((hmaybeNot _ _).append (hmaybe _ _))

/-- Of the ledger, the catalog and the naming convention exactly those are asked that are needed, in
this order and once each. Under force the ledger is not asked, and it is never changed. -/
theorem calls_exactly_needed (b : Behaviour) (r : Request) :
    b.calls r = b.needed r ∧
      (b.calls r).Sublist [.records, .catalog r.hostVersion r.forced, .artifactId r.key] ∧
      (b.calls r).Nodup ∧
      (r.forced = true → ∀ q ∈ b.calls r, q.isOfLedger = false) ∧
      ∀ q ∈ b.calls r, q.isChange = false := by
  have hneeded := needed_sublist b r
  rw [← calls_eq_needed] at hneeded
  have hledger : r.ledgerQueries.Sublist [.records] := by
    unfold Request.ledgerQueries
    split
    · exact List.nil_sublist _
    · exact List.Sublist.refl _
  have hall : (b.calls r).Sublist [.records, .catalog r.hostVersion r.forced, .artifactId r.key] :=
    hneeded.trans (hledger.append (List.Sublist.refl _))
  refine ⟨calls_eq_needed b r, hall, hall.nodup (by simp), ?_, ?_⟩
  · intro hf q hq
    have hmem := hneeded.mem hq
    rw [Request.ledgerQueries, if_pos hf, List.nil_append] at hmem
    rcases List.mem_cons.mp hmem with rfl | hmem
    · rfl
    · rw [List.mem_singleton.mp hmem]
      rfl
  · intro q hq
    have hmem := hall.mem hq
    simp only [List.mem_cons, List.not_mem_nil, or_false] at hmem
    rcases hmem with rfl | rfl | rfl
    · rfl
    · rfl
    · rfl

end PluginResolution.Resolution
