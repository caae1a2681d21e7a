import PluginResolution.Resolution.Cascade

namespace PluginResolution.Resolution

theorem fill_of_unset {c source : Coordinate} (h : source.isEmpty = true) :
    c.fill source = (c, false) := by
  obtain ⟨ha, hv⟩ := Bool.and_eq_true_iff.mp h
  have ha : source.artifactId = none := by simpa using ha
  have hv : source.version = none := by simpa using hv
  rw [Coordinate.fill, ha, hv]
  rfl

/-- What fills an empty coordinate is there as far as it is set. -/
theorem fill_empty_found (source : Coordinate) :
    (Coordinate.fill {} source).1 = ⟨source.artifactId, source.version⟩ := by
  have ha : setValue source.artifactId = source.artifactId := Coordinate.setValue_setValue _
  have hv : setValue source.version = source.version := Coordinate.setValue_setValue _
  simp only [Coordinate.fill, Coordinate.fillArtifactId, Coordinate.fillVersion, ha, hv]
  cases source.artifactId <;> cases source.version <;> rfl

variable {σ : Type} {m : Type → Type} [Monad m] {s : Sources (StateT σ m)} {r : Request}
  {x x' : σ}

section Steps

variable {t : Tier} {ts : List Tier} {p : Progress} {filled : Coordinate × Bool}

theorem ask_run_nil : (ask s r [] p).run x = pure (.ok p.undecided, x) :=
  rfl

theorem ask_run_skipped (ha : t.applies r p.found = false) :
    (ask s r (t :: ts) p).run x = (ask s r ts p).run x := by
  rw [ask, if_neg (by simp [ha])]

variable [LawfulMonad m]

theorem ask_run_decided (ha : t.applies r p.found = true)
    (hs : (t.contribute s r p.found).run x = pure (.ok filled, x'))
    (hc : filled.1.isComplete = true) :
    (ask s r (t :: ts) p).run x = pure (.ok ((p.adopt t filled).decided t), x') := by
  have hfound : (p.adopt t filled).found.isComplete = true := hc
  rw [ask, if_pos ha, StateT.run_bind, hs, pure_bind]
  simp only [hfound, if_true]
  rfl

theorem ask_run_adopted (ha : t.applies r p.found = true)
    (hs : (t.contribute s r p.found).run x = pure (.ok filled, x'))
    (hc : filled.1.isComplete = false) :
    (ask s r (t :: ts) p).run x = (ask s r ts (p.adopt t filled)).run x' := by
  have hfound : (p.adopt t filled).found.isComplete = false := hc
  rw [ask, if_pos ha, StateT.run_bind, hs, pure_bind]
  simp only [hfound, Bool.false_eq_true, if_false]

theorem ask_run_tolerated {e : SourceError} (ha : t.applies r p.found = true)
    (hs : (t.contribute s r p.found).run x = pure (.error e, x'))
    (hr : t.isRequired r = false) :
    (ask s r (t :: ts) p).run x = (ask s r ts (p.tolerate t e)).run x' := by
  rw [ask, if_pos ha, StateT.run_bind, hs, pure_bind]
  simp only [hr, Bool.false_eq_true, if_false]

theorem ask_run_aborted {e : SourceError} (ha : t.applies r p.found = true)
    (hs : (t.contribute s r p.found).run x = pure (.error e, x'))
    (hr : t.isRequired r = true) :
    (ask s r (t :: ts) p).run x = pure (.error (.sourceFailed t e), x') := by
  rw [ask, if_pos ha, StateT.run_bind, hs, pure_bind]
  simp only [hr, if_true]
  rfl

end Steps

section Shares

theorem contribute_run_callerInput (c : Coordinate) :
    (Tier.callerInput.contribute s r c).run x = pure (.ok (c.fill r.known), x) :=
  rfl

variable [LawfulMonad m]

theorem contribute_run_identifierStore {records : List Ledger.Record} (c : Coordinate)
    (hs : s.records.run x = pure (.ok records, x')) :
    (Tier.identifierStore.contribute s r c).run x =
      pure (.ok (match Tier.findRecord? r.key records with
        | none => (c, false)
        | some record => c.fill record.coordinate), x') := by
  rw [Tier.contribute, StateT.run_bind, hs, pure_bind]
  cases hf : Tier.findRecord? r.key records <;> simp [hf]

theorem contribute_run_catalog {listed : Catalog} (c : Coordinate)
    (hs : (s.catalog r.hostVersion r.forced).run x = pure (.ok listed, x')) :
    (Tier.catalog.contribute s r c).run x =
      pure (.ok (match listed.find? r.key with
        | none => (c, false)
        | some entry => c.fill entry.coordinate), x') := by
  rw [Tier.contribute, StateT.run_bind, hs, pure_bind]
  cases hf : listed.find? r.key <;> simp [hf]

theorem contribute_run_namingHeuristic {guess : String} (c : Coordinate)
    (hs : (s.artifactId r.key).run x = pure (guess, x')) :
    (Tier.namingHeuristic.contribute s r c).run x =
      pure (.ok (c.fillArtifactId (some guess)), x') := by
  rw [Tier.contribute, StateT.run_bind, hs, pure_bind]
  rfl

/-- A caller who knows nothing leaves everything to the other tiers. -/
theorem resolve_run_of_unknown (valid : r.validate = .ok ()) (unknown : r.known.isEmpty = true) :
    (resolve s r).run x = (ask s r [.identifierStore, .catalog, .namingHeuristic] {}).run x := by
  have hcaller := contribute_run_callerInput (s := s) (r := r) (x := x) {}
  rw [fill_of_unset unknown] at hcaller
  rw [resolve, resolveFrom, valid]
  exact ask_run_adopted (p := {}) rfl hcaller rfl

end Shares

end PluginResolution.Resolution
