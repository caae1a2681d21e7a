import PluginResolution.Proofs.RefreshLock

namespace PluginResolution.Catalog

theorem Phase.eq_fetching_of_seen {p : Phase} (h : p.seen? = none) : p = .fetching := by
  cases p with
  | fetching => rfl
  | queued seen => cases h
  | admitted seen => cases h

namespace Client

variable {s s' : Client} {e : Event} {o : Outcome}

theorem id_ne_of_leave {c c' : Call} (h : c' ∈ (s.leave c).calls) : c'.id ≠ c.id := by
  obtain ⟨d, -, hne, hgo, -⟩ := goesOn_leave h
  exact hgo.id ▸ hne

/-- After a step of its own a call is still there only if it has just joined the others or begins to
fetch. -/
theorem own_step_of_mem (hr : Rule s e o s') {c' : Call} (hc : c' ∈ s'.calls)
    (he : e.call? = some c'.id) :
    (∃ given forced, e = .enter c'.id given forced) ∨ e = .resume c'.id ∧ o = .fetches := by
  have hleft {c : Call} (h : c' ∈ (s.leave c).calls) : some c.id ≠ some c'.id :=
    fun hid => id_ne_of_leave h (Option.some.inj hid).symm
  cases hr with
  | refuse => cases he; exact .inl ⟨_, _, rfl⟩
  | hit => cases he; exact .inl ⟨_, _, rfl⟩
  | join => cases he; exact .inl ⟨_, _, rfl⟩
  | share => exact absurd he (hleft hc)
  | stop => exact absurd he (hleft hc)
  | @depart c =>
    have hid : c.id = c'.id := Option.some.inj he
    exact .inr ⟨by rw [hid], rfl⟩
  | fail => exact absurd he (hleft hc)
  | keep => exact absurd he (hleft hc)
  | cancel => exact absurd he (hleft hc)
  | pass => cases he

/-- A call that fetches after a step did so before, or begins to in this step. -/
theorem fetching_origin (hr : Rule s e o s') {c' : Call} (hc : c' ∈ s'.calls)
    (hp : c'.phase = .fetching) :
    ∃ c ∈ s.calls, Call.GoesOn c c' ∧
      (c.phase = .fetching ∨ e = .resume c'.id ∧ o = .fetches) := by
  have hunseen : c'.phase.seen? = none := by rw [hp]; rfl
  rcases call_origin hr hc with ⟨c, hmem, hgo, hseen⟩ | ⟨given, -, -, -, hseen⟩
  · refine ⟨c, hmem, hgo, ?_⟩
    by_cases he : e.call? = some c.id
    · rcases own_step_of_mem hr hc (hgo.id ▸ he) with ⟨given, forced, henter⟩ | hdepart
      · rw [hgo.id] at henter
        exact absurd henter (not_reentered hr hmem given forced)
      · exact .inr hdepart
    · exact .inl (Phase.eq_fetching_of_seen ((hseen he).symm.trans hunseen))
  -- one that has just joined waits
  · rw [hunseen] at hseen
    cases hseen

def Departed (past : List Moment) (c : Call) : Prop :=
  ∃ given earlier entry during, Entered past c.id given c.forced earlier entry during ∧
    HostVersion.parse given = .ok c.host ∧
    ∃ m ∈ during, m.event = .resume c.id ∧ m.outcome = .fetches

theorem departed_step {start : Client} {past : List Moment} (h : Recalls start past s)
    (hd : ∀ c ∈ s.calls, c.phase = .fetching → Departed past c) (hr : Rule s e o s') {c' : Call}
    (hc : c' ∈ s'.calls) (hp : c'.phase = .fetching) : Departed (past ++ [⟨e, s.now, o⟩]) c' := by
  obtain ⟨c, hmem, hgo, hphase⟩ := fetching_origin hr hc hp
  have hnot : ∀ given forced, (⟨e, s.now, o⟩ : Moment).event ≠ .enter c.id given forced :=
    not_reentered hr hmem
  rcases hphase with hphase | ⟨he, ho⟩
  · obtain ⟨given, earlier, entry, during, hent, hread, m, hm, hdepart⟩ := hd c hmem hphase
    refine ⟨given, earlier, entry, during ++ [⟨e, s.now, o⟩], ?_, hgo.host ▸ hread, m,
      List.mem_append_left _ hm, hgo.id ▸ hdepart⟩
    rw [hgo.id, hgo.forced]
    exact hent.extend hnot
  · obtain ⟨given, earlier, entry, during, hent, hread, -⟩ := h.began c hmem
    refine ⟨given, earlier, entry, during ++ [⟨e, s.now, o⟩], ?_, hgo.host ▸ hread,
      ⟨e, s.now, o⟩, List.mem_append_right _ (List.mem_singleton_self _), he, ho⟩
    rw [hgo.id, hgo.forced]
    exact hent.extend hnot

theorem Run.departed {misconfigured : Option PluginDirectory.Error} {ttl now : Nat}
    {past : List Moment} (h : Run (unused misconfigured ttl now) past s) :
    ∀ c ∈ s.calls, c.phase = .fetching → Departed past c := by
  induction h with
  | start => exact fun _ hc => by cases hc
  | next before step ih =>
    exact fun _ hc hp => departed_step before.recalls ih (rule_of_step step) hc hp

/-- Where nothing can be fetched, that was so from the start. -/
theorem Run.misconfigured {start : Client} {past : List Moment} (h : Run start past s) :
    s.misconfigured = start.misconfigured := by
  induction h with
  | start => rfl
  | next before step ih => exact (surroundings_step (rule_of_step step)).2.2.trans ih

structure Completes (s : Client) (e : Event) (c : Call) (d : PluginDirectory) : Prop where
  live : c ∈ s.calls
  turn : c.phase = .fetching
  brought : ∃ body, e = .answer c.id (.ok body) ∧ PluginDirectory.parse body = .ok d

theorem Completes.step {c : Call} {d : PluginDirectory} (h : Completes s e c d)
    (ho : Orderly s.calls) :
    s.step e = some (.ended (.ok (d.catalogFor c.host)), s.keep c (d.catalogFor c.host)) := by
  obtain ⟨body, rfl, hread⟩ := h.brought
  exact step_keep (ho.find h.live) h.turn hread

/-- The entry of a line changes just when a call of the line completes its fetch. -/
theorem changes_iff_completes (ho : Orderly s.calls) (hs : s.step e = some (o, s'))
    (line : String) :
    s'.cache.find? line ≠ s.cache.find? line ↔ ∃ c d, Completes s e c d ∧ c.line = line := by
  constructor
  · intro hne
    cases rule_of_step hs with
    | @keep c body d there turn read =>
      have hline : c.line = line := by
        by_contra hl
        have hl : line ≠ (PluginDirectory.catalogFor d c.host).line := Ne.symm hl
        exact hne (Cache.find?_store_of_ne s.cache s.now hl)
      exact ⟨c, d, ⟨(find_mem there).1, turn, body, rfl, read⟩, hline⟩
    | _ => exact absurd rfl hne
  · rintro ⟨c, d, hcompletes, rfl⟩ hsame
    have hstep := hcompletes.step ho
    rw [hs] at hstep
    cases hstep
    -- with the same entry there would be as many stores as before
    have hnew := Cache.count_store_self s.cache s.now (PluginDirectory.catalogFor d c.host)
    have hold : (s.cache.store s.now (PluginDirectory.catalogFor d c.host)).count c.line =
        s.cache.count c.line := congrArg (Option.elim · 0 Kept.count) hsame
    have hadd : s.cache.count c.line = s.cache.count c.line + 1 := hold.symm.trans hnew
    omega

/-- A call that fails in the step, or is given up in it, leaves what is kept and takes no time. -/
theorem untouched_of_failed (hr : Rule s e o s')
    (h : (∃ f, o = .ended (.error f)) ∨ ∃ id, e = .cancel id) :
    s'.cache = s.cache ∧ s'.now = s.now := by
  rcases h with ⟨f, rfl⟩ | ⟨id, rfl⟩
  · cases hr with
    | refuse => exact ⟨rfl, rfl⟩
    | stop => exact ⟨rfl, rfl⟩
    | fail => exact ⟨rfl, rfl⟩
  · cases hr with
    | cancel => exact ⟨rfl, rfl⟩

theorem step_hit {id : Nat} {given : String} {host : HostVersion} {catalog : Catalog}
    (free : s.find? id = none) (read : HostVersion.parse given = .ok host)
    (kept : s.cache.fresh? s.now host.line = some catalog) :
    s.step (.enter id given false) = some (.ended (.ok catalog), s) := by
  simp only [step, free, Option.isSome_none, Bool.false_eq_true, if_false, enter, read, kept]

/-- Why a call of its own fails that entered so and since then went through that. Either it was
refused and has never fetched, or it fails in what is its own fetch. -/
inductive OwnFailure (misconfigured : Option PluginDirectory.Error) (id : Nat) (given : String)
    (during : List Moment) : Event → CatalogError → Prop
  | refused {forced} (unread : HostVersion.parse given = .error ⟨given⟩) (never : during = []) :
      OwnFailure misconfigured id given during (.enter id given forced) (.invalidHostVersion given)
  | nowhere {f} (stop : misconfigured = some f) :
      OwnFailure misconfigured id given during (.resume id) f.toCatalogError
  | fetch {answer f} (departed : ∃ m ∈ during, m.event = .resume id ∧ m.outcome = .fetches)
      (useless : answer.bind PluginDirectory.parse = .error f) :
      OwnFailure misconfigured id given during (.answer id answer) f.toCatalogError

theorem given_of_unread {given : String} {e : HostVersion.Invalid}
    (h : HostVersion.parse given = .error e) : e = ⟨given⟩ := by
  unfold HostVersion.parse at h
  split at h
  · cases h
  · cases h
    rfl

theorem ownFailure_step {start : Client} {past : List Moment} (h : Recalls start past s)
    (hd : ∀ c ∈ s.calls, c.phase = .fetching → Departed past c) {f : CatalogError}
    (hr : Rule s e (.ended (.error f)) s') :
    ∃ id given forced earlier entry during,
      Entered (past ++ [⟨e, s.now, .ended (.error f)⟩]) id given forced earlier entry during ∧
      OwnFailure s.misconfigured id given during e f := by
  cases hr with
  | @refuse id given forced e fresh unread =>
    obtain rfl := given_of_unread unread
    exact ⟨id, given, forced, past, _, [], Entered.now past rfl, .refused unread rfl⟩
  | @stop c seen f there turn none_newer nowhere =>
    obtain ⟨given, earlier, entry, during, hent, -⟩ := h.began c (find_mem there).1
    have hext := hent.extend (m := ⟨.resume c.id, s.now, .ended (.error f.toCatalogError)⟩)
      (fun _ _ he => by cases he)
    exact ⟨c.id, given, c.forced, earlier, entry, _, hext, .nowhere nowhere⟩
  | @fail c answer f there turn useless =>
    obtain ⟨given, earlier, entry, during, hent, -, m, hm, hdepart⟩ := hd c (find_mem there).1 turn
    have hext := hent.extend (m := ⟨.answer c.id answer, s.now, .ended (.error f.toCatalogError)⟩)
      (fun _ _ he => by cases he)
    exact ⟨c.id, given, c.forced, earlier, entry, _, hext,
      .fetch ⟨m, List.mem_append_left _ hm, hdepart⟩ useless⟩

/-- Who holds the lock of a line is one of its calls, and has something to do. -/
theorem holder_live {past : List Moment} {line : String} (ho : Orderly s.calls)
    (hlock : lockAfter line past = .ofQueue (lineIds line s.calls)) {id : Nat}
    (hh : (lockAfter line past).holder = some id) :
    ∃ c ∈ s.calls, c.id = id ∧ c.line = line ∧
      (c.phase = .fetching ∧ (∀ answer, (s.step (.answer id answer)).isSome) ∨
        ∃ seen, c.phase = .admitted seen ∧ (s.step (.resume id)).isSome) := by
  rw [hlock] at hh
  cases hl : onLine line s.calls with
  | nil =>
    rw [lineIds, hl] at hh
    cases hh
  | cons c rest =>
    have hmem := mem_onLine.mp (hl ▸ List.mem_cons_self : c ∈ onLine line s.calls)
    rw [lineIds, hl] at hh
    obtain rfl : c.id = id := Option.some.inj hh
    have there := ho.find hmem.1
    refine ⟨c, hmem.1, rfl, hmem.2, ?_⟩
    have hturn := (ho.turns line c rest hl).1
    cases hp : c.phase with
    | queued seen =>
      rw [hp] at hturn
      cases hturn
    | admitted seen =>
      refine .inr ⟨seen, rfl, ?_⟩
      simp only [step, there, Option.bind_eq_bind, Option.bind_some, hp, Option.isSome_some]
    | fetching =>
      refine .inl ⟨rfl, fun answer => ?_⟩
      simp only [step, there, Option.bind_eq_bind, Option.bind_some, hp, Option.isSome_some]

/-- A queued call waits for a lock that someone holds. -/
theorem holder_of_queued {past : List Moment} {c : Call} (ho : Orderly s.calls)
    (hlock : lockAfter c.line past = .ofQueue (lineIds c.line s.calls)) (hc : c ∈ s.calls)
    (hq : c.phase.isQueued = true) :
    c.id ∈ (lockAfter c.line past).waiting ∧
      ∃ d ∈ s.calls, (lockAfter c.line past).holder = some d.id := by
  have hmem : c ∈ onLine c.line s.calls := mem_onLine.mpr ⟨hc, rfl⟩
  rw [hlock]
  cases hl : onLine c.line s.calls with
  | nil =>
    rw [hl] at hmem
    cases hmem
  | cons d rest =>
    have hd := mem_onLine.mp (hl ▸ List.mem_cons_self : d ∈ onLine c.line s.calls)
    have hturn := (ho.turns c.line d rest hl).1
    rw [hl] at hmem
    rw [lineIds, hl]
    -- it is not the first one, which is not queued
    rcases List.mem_cons.mp hmem with rfl | hrest
    · rw [hq] at hturn
      cases hturn
    · exact ⟨List.mem_map_of_mem hrest, d, hd.1, rfl⟩

structure NoTrace (misconfigured : Option PluginDirectory.Error) (past : List Moment)
    (s : Client) : Prop where
  /-- A step changes the entry of a line just if it completes a fetch of a call of that line. -/
  changes : ∀ e o s', s.step e = some (o, s') → ∀ line,
    s'.cache.find? line ≠ s.cache.find? line ↔ ∃ c d, Completes s e c d ∧ c.line = line
  /-- Then the catalog is kept that the call ends with, as one more of its line. -/
  stored : ∀ e o s', s.step e = some (o, s') → ∀ c d, Completes s e c d →
    o = .ended (.ok (d.catalogFor c.host)) ∧
    s'.cache.find? c.line = some ⟨d.catalogFor c.host, s.now, s.cache.count c.line + 1⟩
  /-- A step in which a call fails or is given up changes nothing that is kept, and what was served
  from a fresh copy before it is so after it. -/
  failed : ∀ e o s', s.step e = some (o, s') →
    (∃ f, o = .ended (.error f)) ∨ (∃ id, e = .cancel id) →
    s'.cache = s.cache ∧ ∀ id given host catalog, s'.find? id = none →
      HostVersion.parse given = .ok host → s.cache.fresh? s.now host.line = some catalog →
      s'.step (.enter id given false) = some (.ended (.ok catalog), s')
  /-- A lock is held only by a call of its line that fetches or can go on. -/
  holder : ∀ line id, (lockAfter line past).holder = some id →
    ∃ c ∈ s.calls, c.id = id ∧ c.line = line ∧
      (c.phase = .fetching ∧ (∀ answer, (s.step (.answer id answer)).isSome) ∨
        ∃ seen, c.phase = .admitted seen ∧ (s.step (.resume id)).isSome)
  /-- No call waits for a lock that none holds. -/
  waiting : ∀ c ∈ s.calls, c.phase.isQueued = true →
    c.id ∈ (lockAfter c.line past).waiting ∧
      ∃ d ∈ s.calls, (lockAfter c.line past).holder = some d.id
  own : ∀ e f s', s.step e = some (.ended (.error f), s') →
    ∃ id given forced earlier entry during,
      Entered (past ++ [⟨e, s.now, .ended (.error f)⟩]) id given forced earlier entry during ∧
      OwnFailure misconfigured id given during e f

theorem failures_leave_no_trace {misconfigured : Option PluginDirectory.Error} {ttl now : Nat}
    {past : List Moment} (run : Run (unused misconfigured ttl now) past s) :
    NoTrace misconfigured past s := by
  have hrec := run.recalls
  have ho := hrec.calls
  refine ⟨?_, ?_, ?_, ?_, ?_, ?_⟩
  · intro e o s' hs line
    exact changes_iff_completes ho hs line
  · intro e o s' hs c d hcompletes
    have hstep := hcompletes.step ho
    rw [hs] at hstep
    cases hstep
    exact ⟨rfl, Cache.find?_store_self s.cache s.now (d.catalogFor c.host)⟩
  · intro e o s' hs hfailed
    obtain ⟨hcache, hnow⟩ := untouched_of_failed (rule_of_step hs) hfailed
    refine ⟨hcache, fun id given host catalog hfree hread hfresh => ?_⟩
    rw [← hcache, ← hnow] at hfresh
    exact step_hit hfree hread hfresh
  · intro line id hholder
    exact holder_live ho (run.lock line) hholder
  · intro c hc hqueued
    exact holder_of_queued ho (run.lock c.line) hc hqueued
  · intro e f s' hs
    have hown := ownFailure_step hrec run.departed (rule_of_step hs)
    have hmis : s.misconfigured = misconfigured := run.misconfigured
    rwa [hmis] at hown

/-- The fetch of one call is lost, and the one that waits for it has the lock then. -/
theorem failures_leave_no_trace_of_lost_fetch :
    ∃ past s m s', Run (unused none 10 0) past s ∧
      s.step (.answer 0 (.error (.network "reset"))) =
        some (.ended (.error (PluginDirectory.Error.network "reset").toCatalogError), s') ∧
      s'.cache = s.cache ∧ Run (unused none 10 0) (past ++ [m]) s' ∧
      (lockAfter "0.24" (past ++ [m])).holder = some 1 ∧
      ∃ c ∈ s'.calls, c.id = 1 ∧ c.line = "0.24" ∧ (s'.step (.resume 1)).isSome := by
  let host : HostVersion := ⟨"0.24.1", 0, 24⟩
  let leader : Call := ⟨0, host, true, .fetching⟩
  let s₁ : Client := { unused none 10 0 with calls := [⟨0, host, true, .admitted 0⟩] }
  let s₂ : Client := { unused none 10 0 with calls := [leader] }
  let s₃ : Client := { unused none 10 0 with calls := [leader, ⟨1, host, false, .queued 0⟩] }
  let s₄ : Client := { unused none 10 0 with calls := [⟨1, host, false, .admitted 0⟩] }
  have entered : (unused none 10 0).step (.enter 0 "0.24.1" true) = some (.waits, s₁) := rfl
  have departed : s₁.step (.resume 0) = some (.fetches, s₂) := rfl
  have joined : s₂.step (.enter 1 "0.24.1" false) = some (.waits, s₃) := by
    have hjoin : s₂.join 1 host false = s₃ := by decide +kernel
    rw [← hjoin]
    rfl
  have lost : s₃.step (.answer 0 (.error (.network "reset"))) =
      some (.ended (.error (PluginDirectory.Error.network "reset").toCatalogError), s₄) := by
    have hleave : s₃.leave leader = s₄ := by decide +kernel
    rw [← hleave]
    rfl
  have run := ((Run.start.next entered).next departed).next joined
  have after := run.next lost
  obtain ⟨hcache, -⟩ := (failures_leave_no_trace run).failed _ _ _ lost (.inl ⟨_, rfl⟩)
  have hqueue : lineIds "0.24" s₄.calls = [1] := by decide +kernel
  have hlock := after.lock "0.24"
  rw [hqueue] at hlock
  have hheld := congrArg Lock.holder hlock
  obtain ⟨c, hc, hid, hline, hnext⟩ := (failures_leave_no_trace after).holder "0.24" 1 hheld
  refine ⟨_, s₃, _, s₄, run, lost, hcache, after, hheld, c, hc, hid, hline, ?_⟩
  -- it has just got the lock, so it does not fetch
  obtain rfl := List.mem_singleton.mp hc
  rcases hnext with ⟨hfetching, -⟩ | ⟨seen, -, hstep⟩
  · cases hfetching
  · exact hstep

end Client

end PluginResolution.Catalog
