import PluginResolution.Proofs.SourceCalls

namespace PluginResolution.Resolution

/-- The second behaviour is the first one, except that a ledger or a catalog is empty where it could
not be had. -/
structure Mends (b b' : Behaviour) : Prop where
  records : ∀ log, match (b.after log).records.run with
    | .ok records => (b'.after log).records.run = .ok records
    | .error _ => (b'.after log).records.run = .ok []
  catalog : ∀ log hostVersion forced, match ((b.after log).catalog hostVersion forced).run with
    | .ok listed => ((b'.after log).catalog hostVersion forced).run = .ok listed
    | .error _ => ∃ line, ((b'.after log).catalog hostVersion forced).run = .ok ⟨line, []⟩
  artifactId : ∀ log key, ((b'.after log).artifactId key).run = ((b.after log).artifactId key).run

def Query.tier? : Query → Option Tier
  | .records => some .identifierStore
  | .catalog _ _ => some .catalog
  | _ => none

def Query.failure? (b : Behaviour) (log : List Query) : Query → Option Degraded
  | .records => match (b.after log).records.run with
    | .ok _ => none
    | .error e => some ⟨.identifierStore, e.message⟩
  | .catalog hostVersion forced => match ((b.after log).catalog hostVersion forced).run with
    | .ok _ => none
    | .error e => some ⟨.catalog, e.message⟩
  | _ => none

def failures (b : Behaviour) : (log queries : List Query) → List Degraded
  | _, [] => []
  | log, q :: rest => (q.failure? b log).toList ++ failures b (log ++ [q]) rest

theorem failures_append (b : Behaviour) (log first rest : List Query) :
    failures b log (first ++ rest) = failures b log first ++ failures b (log ++ first) rest := by
  induction first generalizing log with
  | nil => simp [failures]
  | cons q first ih =>
    rw [List.cons_append, failures, failures, ih, List.append_assoc, List.append_assoc,
      List.singleton_append]

/-- No failure is told twice or in another order than that of the queries. -/
theorem tiers_failures_sublist (b : Behaviour) (log queries : List Query) :
    ((failures b log queries).map (·.tier)).Sublist (queries.filterMap Query.tier?) := by
  induction queries generalizing log with
  | nil => exact List.Sublist.refl _
  | cons q rest ih =>
    have hfirst : ((q.failure? b log).toList.map (·.tier)).Sublist q.tier?.toList := by
      unfold Query.failure?
      split
      · split
        · exact List.nil_sublist _
        · exact List.Sublist.refl _
      · split
        · exact List.nil_sublist _
        · exact List.Sublist.refl _
      · exact List.nil_sublist _
    have hsplit : (q :: rest).filterMap Query.tier? =
        q.tier?.toList ++ rest.filterMap Query.tier? := by
      rw [List.filterMap_cons]
      cases q.tier? <;> rfl
    rw [failures, List.map_append, hsplit]
    exact hfirst.append (ih (log ++ [q]))

variable {b b' : Behaviour} {r : Request}

/-- Of a tier whose source fails, the mended source has nothing to add. -/
theorem contribute_mended (h : Mends b b') (hf : r.forced = false) (t : Tier) (c : Coordinate)
    (log : List Query) :
    (∃ filled, (t.contribute (b.after log) r c).run = .ok filled ∧
        (t.contribute (b'.after log) r c).run = .ok filled ∧
        failures b log (t.queries r) = []) ∨
      ∃ e, (t.contribute (b.after log) r c).run = .error e ∧
        (t.contribute (b'.after log) r c).run = .ok (c, false) ∧
        failures b log (t.queries r) = [⟨t, e.message⟩] := by
  cases t with
  | callerInput => exact .inl ⟨_, rfl, rfl, rfl⟩
  | identifierStore =>
    have hrecords := h.records log
    have hfailures : failures b log (Tier.identifierStore.queries r) =
        (Query.records.failure? b log).toList := List.append_nil _
    rw [hfailures, Query.failure?]
    cases hs : (b.after log).records.run with
    | ok records =>
      rw [hs] at hrecords
      have hsame : (Tier.identifierStore.contribute (b'.after log) r c).run =
          (Tier.identifierStore.contribute (b.after log) r c).run := by
        simp [Tier.contribute, hs, hrecords]
      have hfill := contribute_identifierStore c hf hs
      exact .inl ⟨_, hfill, hsame.trans hfill, rfl⟩
    | error e =>
      rw [hs] at hrecords
      exact .inr ⟨.ledger e, by simp [Tier.contribute, hs],
        by simp [Tier.contribute, hrecords, Tier.findRecord?], rfl⟩
  | catalog =>
    have hcatalog := h.catalog log r.hostVersion r.forced
    have hfailures : failures b log (Tier.catalog.queries r) =
        ((Query.catalog r.hostVersion r.forced).failure? b log).toList := List.append_nil _
    rw [hfailures, Query.failure?]
    cases hs : ((b.after log).catalog r.hostVersion r.forced).run with
    | ok listed =>
      rw [hs] at hcatalog
      have hsame : (Tier.catalog.contribute (b'.after log) r c).run =
          (Tier.catalog.contribute (b.after log) r c).run := by
        simp [Tier.contribute, hs, hcatalog]
      have hfill := contribute_catalog c hs
      exact .inl ⟨_, hfill, hsame.trans hfill, rfl⟩
    | error e =>
      rw [hs] at hcatalog
      obtain ⟨line, hempty⟩ := hcatalog
      exact .inr ⟨.catalog e, by simp [Tier.contribute, hs],
        by simp [Tier.contribute, hempty, Catalog.find?], rfl⟩
  | namingHeuristic =>
    have hguess : (b'.after log).artifactId r.key = (b.after log).artifactId r.key :=
      h.artifactId log r.key
    have hsame : (Tier.namingHeuristic.contribute (b'.after log) r c).run =
        (Tier.namingHeuristic.contribute (b.after log) r c).run := by
      rw [Tier.contribute, Tier.contribute, hguess]
    have hfill := contribute_namingHeuristic (b.after log) r c
    exact .inl ⟨_, hfill, hsame.trans hfill, rfl⟩

theorem isRequired_of_unforced (hf : r.forced = false) (t : Tier) : t.isRequired r = false := by
  cases t with
  | catalog => exact hf
  | _ => rfl

def Progress.silent (p : Progress) : Progress :=
  { p with degraded := [] }

def Report.silent (report : Report) : Report :=
  { report with degraded := [] }

/-- As long as something is missing, the tiers do the same over mended sources and make the same
queries. -/
theorem ask_mended (h : Mends b b') (hf : r.forced = false) (ts : List Tier) (p : Progress)
    (hp : p.found.isComplete = false) (log : List Query) :
    ∃ report calls,
      (ask b.sources r ts p).run log = pure (.ok report, log ++ calls) ∧
      (ask b'.sources r ts p.silent).run log = pure (.ok report.silent, log ++ calls) ∧
      report.degraded = p.degraded ++ failures b log calls := by
  -- on the tiers that are left
  induction ts generalizing p log with
  | nil =>
    refine ⟨p.undecided, [], ?_, ?_, (List.append_nil _).symm⟩
    · rw [ask_run_nil, List.append_nil]
    · rw [ask_run_nil, List.append_nil]
      rfl
  | cons t ts ih =>
    by_cases ha : t.applies r p.found = true
    · rcases contribute_mended h hf t p.found log with
        ⟨filled, hs, hs', hnone⟩ | ⟨e, hs, hs', hone⟩
      · by_cases hc : filled.1.isComplete = true
        · refine ⟨(p.adopt t filled).decided t, t.queries r, asked_decided ha hs hc,
            asked_decided ha hs' hc, ?_⟩
          rw [hnone, List.append_nil]
          rfl
        · have hc := eq_false_of_ne_true hc
          obtain ⟨report, calls, hrun, hrun', htold⟩ :=
            ih (p.adopt t filled) hc (log ++ t.queries r)
          have hadopted : p.silent.adopt t filled = (p.adopt t filled).silent := rfl
          refine ⟨report, t.queries r ++ calls, ?_, ?_, ?_⟩
          · rw [asked_adopted ha hs hc, hrun, List.append_assoc]
          · rw [asked_adopted (p := p.silent) ha hs' hc, hadopted, hrun', List.append_assoc]
          · rw [htold, failures_append, hnone, List.nil_append]
            rfl
      -- a failure leaves the coordinate as it is, and so does an empty source
      · obtain ⟨report, calls, hrun, hrun', htold⟩ :=
          ih (p.tolerate t e) hp (log ++ t.queries r)
        have hadopted : p.silent.adopt t (p.found, false) = (p.tolerate t e).silent := rfl
        refine ⟨report, t.queries r ++ calls, ?_, ?_, ?_⟩
        · rw [asked_tolerated ha hs (isRequired_of_unforced hf t), hrun, List.append_assoc]
        · rw [asked_adopted (p := p.silent) ha hs' hp, hadopted, hrun', List.append_assoc]
        · rw [htold, failures_append, hone, ← List.append_assoc]
          rfl
    · have ha := eq_false_of_ne_true ha
      have ha' : t.applies r p.silent.found = false := ha
      rw [ask_run_skipped ha, ask_run_skipped ha']
      exact ih p hp log

/-- Under force a source that is asked either answers or is required. -/
theorem isRequired_of_failed (hf : r.forced = true) {t : Tier} {c : Coordinate}
    {log : List Query} {e : SourceError} (ha : t.applies r c = true)
    (hs : (t.contribute (b.after log) r c).run = .error e) : t.isRequired r = true := by
  cases t with
  | callerInput => cases hs
  | identifierStore =>
    rw [Tier.applies, hf] at ha
    cases ha
  | catalog => exact hf
  | namingHeuristic => cases hs

/-- So nothing is told of failures then, if nothing was told before. -/
theorem degraded_of_forced (hf : r.forced = true) (ts : List Tier) (p : Progress)
    (hp : p.degraded = []) (log : List Query) {report : Report} {log' : List Query}
    (hrun : (ask b.sources r ts p).run log = pure (.ok report, log')) : report.degraded = [] := by
  induction ts generalizing p log with
  | nil =>
    rw [ask_run_nil] at hrun
    cases hrun
    exact hp
  | cons t ts ih =>
    by_cases ha : t.applies r p.found = true
    · cases hs : (t.contribute (b.after log) r p.found).run with
      | ok filled =>
        by_cases hc : filled.1.isComplete = true
        · rw [asked_decided ha hs hc] at hrun
          cases hrun
          exact hp
        · rw [asked_adopted ha hs (eq_false_of_ne_true hc)] at hrun
          exact ih (p.adopt t filled) hp _ hrun
      | error e =>
        rw [asked_aborted ha hs (isRequired_of_failed hf ha hs)] at hrun
        cases hrun
    · rw [ask_run_skipped (eq_false_of_ne_true ha)] at hrun
      exact ih p hp log hrun

/-- Failures that are tolerated change nothing but the list of failures, which tells those of the
sources that were asked. Under force none is tolerated. -/
theorem tolerated_failures_only_reported (b b' : Behaviour) (r : Request) :
    (r.validate = .ok () → r.forced = false → Mends b b' →
      ∃ report, b.outcome r = .ok report ∧ b'.outcome r = .ok { report with degraded := [] } ∧
        b'.calls r = b.calls r ∧
        report.degraded = failures b [] (b.calls r) ∧
        (report.degraded.map (·.tier)).Sublist [.identifierStore, .catalog]) ∧
    (r.forced = true → ∀ report, b.outcome r = .ok report → report.degraded = []) := by
  constructor
  · intro hvalid hf hmends
    have haccepted := (validate_eq_ok_iff r).mp hvalid
    obtain ⟨report, calls, hrun, hrun', htold⟩ := ask_mended hmends hf Tier.all {} rfl []
    have hall := (resolve_run_of_accepted b haccepted).trans hrun
    have hall' := (resolve_run_of_accepted b' haccepted).trans hrun'
    have hcalls : b.calls r = calls := congrArg Prod.snd hall
    have hcalls' : b'.calls r = calls := congrArg Prod.snd hall'
    have htold : report.degraded = failures b [] (b.calls r) := hcalls ▸ htold
    refine ⟨report, congrArg Prod.fst hall, congrArg Prod.fst hall', hcalls'.trans hcalls.symm,
      htold, ?_⟩
    -- the tiers come in the order of the queries, which are among three
    have hsub := needed_sublist b r
    rw [← calls_eq_needed, Request.ledgerQueries, hf] at hsub
    rw [htold]
    exact (tiers_failures_sublist b [] _).trans (hsub.filterMap Query.tier?)
  · intro hf report hout
    by_cases hrejected : r.Rejected
    · obtain ⟨fault, hrun⟩ := resolve_run_of_rejected b hrejected
      rw [Behaviour.outcome, hrun] at hout
      cases hout
    · have hrun : (ask b.sources r Tier.all {}).run [] = pure (.ok report, b.calls r) :=
        (resolve_run_of_accepted b hrejected).symm.trans (Prod.ext hout rfl)
      exact degraded_of_forced hf Tier.all {} rfl [] hrun

def Behaviour.unavailable : Behaviour := fun _ q => match q with
  | .records => .error (.storage "disk")
  | .record _ => .error (.storage "disk")
  | .upsert _ => .error (.storage "disk")
  | .remove _ => .error (.storage "disk")
  | .catalog _ _ => .error (.unavailable "offline")
  | .artifactId key => key ++ "-plugin"

def Behaviour.empty : Behaviour := fun log q => match q with
  | .records => .ok []
  | .catalog _ _ => .ok ⟨"0.24", []⟩
  | q => Behaviour.unavailable log q

/-- The caller knows a version, and the artifact id is guessed: unforced although the ledger and the
catalog fail, and forced from an empty catalog. -/
theorem tolerated_failures_only_reported_of_guess :
    let r : Request := ⟨"0.24.1", "stripe", none, some "7.0.0", false⟩
    (r.validate = .ok () ∧ r.forced = false ∧ Mends .unavailable .empty ∧
      ∃ report, Behaviour.unavailable.outcome r = .ok report ∧
        Behaviour.empty.outcome r = .ok { report with degraded := [] } ∧
        Behaviour.empty.calls r = Behaviour.unavailable.calls r ∧
        report.degraded =
          [⟨.identifierStore, "Storage error: disk"⟩, ⟨.catalog, "Catalog unavailable: offline"⟩]) ∧
    ∃ report, Behaviour.empty.outcome { r with forced := true } = .ok report ∧
      report.degraded = [] := by
  intro r
  constructor
  · have hmends : Mends .unavailable .empty :=
      ⟨fun _ => rfl, fun _ _ _ => ⟨"0.24", rfl⟩, fun _ _ => rfl⟩
    have hvalid : r.validate = .ok () := by cbv
    have hmade : Behaviour.unavailable.calls ⟨"0.24.1", "stripe", none, some "7.0.0", false⟩ =
        [.records, .catalog "0.24.1" false, .artifactId "stripe"] := by
      decide +kernel
    obtain ⟨report, hout, hout', hcalls, htold, -⟩ :=
      (tolerated_failures_only_reported .unavailable .empty r).1 hvalid rfl hmends
    rw [hmade] at htold
    exact ⟨hvalid, rfl, hmends, report, hout, hout', hcalls, htold⟩
  · let report : Report := {
      coordinate := some ⟨some "stripe-plugin", some "7.0.0"⟩
      decidedBy := some .namingHeuristic
      contributors := [.callerInput, .namingHeuristic] }
    have hout : Behaviour.empty.outcome ⟨"0.24.1", "stripe", none, some "7.0.0", true⟩ =
        .ok report := by
      rfl
    exact ⟨report, hout, (tolerated_failures_only_reported .empty .empty _).2 rfl report hout⟩

end PluginResolution.Resolution
