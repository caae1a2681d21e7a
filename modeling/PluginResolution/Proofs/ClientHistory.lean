import Mathlib.Data.List.Induction
import PluginResolution.Proofs.ClientSteps

namespace PluginResolution.Catalog.Client

structure Moment where
  event : Event
  time : Nat
  outcome : Outcome

/-- From `start` all that is in the list happened, in that order, and led to the last state. -/
inductive Run (start : Client) : List Moment → Client → Prop
  | start : Run start [] start
  | next {past : List Moment} {s s' : Client} {e : Event} {o : Outcome} (before : Run start past s)
      (step : s.step e = some (o, s')) : Run start (past ++ [⟨e, s.now, o⟩]) s'

def unused (misconfigured : Option PluginDirectory.Error) (ttl now : Nat) : Client where
  misconfigured
  cache := { ttl }
  now

def Moment.stored? (m : Moment) : Option Catalog :=
  match m.event, m.outcome with
  | .answer _ _, .ended (.ok catalog) => some catalog
  | _, _ => none

/-- A fetch brought a body in that moment, which was the directory that the catalog is made of. -/
def Moment.Brought (m : Moment) (host : HostVersion) (catalog : Catalog) : Prop :=
  ∃ fetcher body d, m.event = .answer fetcher (.ok body) ∧ m.outcome = .ended (.ok catalog) ∧
    PluginDirectory.parse body = .ok d ∧ catalog = PluginDirectory.catalogFor d host

def stores (line : String) (past : List Moment) : List Moment :=
  past.filter fun m => m.stored?.any (·.line = line)

def keptAfter (line : String) (past : List Moment) : Option Kept :=
  (stores line past).getLast?.bind fun m =>
    m.stored?.map fun catalog => ⟨catalog, m.time, (stores line past).length⟩

/-- The last time that a call with that id entered: before it was `earlier`, and since then
`during`. -/
structure Entered (past : List Moment) (id : Nat) (given : String) (forced : Bool)
    (earlier : List Moment) (entry : Moment) (during : List Moment) : Prop where
  past : past = earlier ++ entry :: during
  entry : entry.event = .enter id given forced
  last : ∀ m ∈ during, ∀ given' forced', m.event ≠ .enter id given' forced'

def Began (past : List Moment) (c : Call) : Prop :=
  ∃ given earlier entry during, Entered past c.id given c.forced earlier entry during ∧
    HostVersion.parse given = .ok c.host ∧
    ∀ n, c.phase.seen? = some n → n = (stores c.line earlier).length

structure Recalls (start : Client) (past : List Moment) (s : Client) : Prop where
  ttl : s.cache.ttl = start.cache.ttl
  kept : ∀ line, s.cache.find? line = keptAfter line past
  clock : ∀ m ∈ past, m.time ≤ s.now
  calls : Orderly s.calls
  began : ∀ c ∈ s.calls, Began past c
  brought : ∀ m ∈ past, ∀ catalog, m.stored? = some catalog → ∃ host, m.Brought host catalog

/-- Of a host version a catalog depends on the line only. -/
theorem catalogFor_congr (d : PluginDirectory) {h h' : HostVersion} (hl : h.line = h'.line) :
    PluginDirectory.catalogFor d h = PluginDirectory.catalogFor d h' := by
  simp only [PluginDirectory.catalogFor, hl]

theorem Moment.Brought.of_line {m : Moment} {h h' : HostVersion} {catalog : Catalog}
    (hb : m.Brought h catalog) (hl : catalog.line = h'.line) : m.Brought h' catalog := by
  obtain ⟨fetcher, body, d, he, ho, hp, rfl⟩ := hb
  exact ⟨fetcher, body, d, he, ho, hp, catalogFor_congr d hl⟩

theorem stores_append (line : String) (a b : List Moment) :
    stores line (a ++ b) = stores line a ++ stores line b :=
  List.filter_append ..

theorem stores_of_none {m : Moment} (h : m.stored? = none) (line : String) :
    stores line [m] = [] := by
  simp [stores, h]

theorem stores_of_some {m : Moment} {catalog : Catalog} (h : m.stored? = some catalog) :
    stores catalog.line [m] = [m] := by
  simp [stores, h]

theorem stores_of_ne {m : Moment} {catalog : Catalog} (h : m.stored? = some catalog)
    {line : String} (hl : line ≠ catalog.line) : stores line [m] = [] := by
  simp [stores, h, Ne.symm hl]

theorem mem_stores {line : String} {past : List Moment} {m : Moment} (h : m ∈ stores line past) :
    m ∈ past ∧ ∃ catalog, m.stored? = some catalog ∧ catalog.line = line := by
  obtain ⟨hm, hs⟩ := List.mem_filter.mp h
  obtain ⟨catalog, hc, hl⟩ := (Option.any_eq_true ..).mp hs
  exact ⟨hm, catalog, hc, by simpa using hl⟩

theorem stored_enter {m : Moment} {id : Nat} {given : String} {forced : Bool}
    (h : m.event = .enter id given forced) : m.stored? = none := by
  rw [Moment.stored?, h]

/-- The moment of the last store, its catalog, and how many there were. -/
theorem keptAfter_some {line : String} {past : List Moment} {k : Kept}
    (h : keptAfter line past = some k) :
    ∃ m, (stores line past).getLast? = some m ∧ m.stored? = some k.catalog ∧
      m.time = k.storedAt ∧ k.count = (stores line past).length := by
  obtain ⟨m, hm, hk⟩ := Option.bind_eq_some_iff.mp h
  obtain ⟨catalog, hc, rfl⟩ := Option.map_eq_some_iff.mp hk
  exact ⟨m, hm, hc, rfl, rfl⟩

theorem Recalls.count {start s : Client} {past : List Moment} (h : Recalls start past s)
    (line : String) : s.cache.count line = (stores line past).length := by
  rw [Cache.count, h.kept line]
  cases hl : (stores line past).getLast? with
  | none =>
    rw [List.getLast?_eq_none_iff.mp hl]
    simp [keptAfter, hl]
  | some m =>
    obtain ⟨catalog, hc⟩ : ∃ catalog, m.stored? = some catalog :=
      have hmem := mem_stores (List.mem_of_getLast? hl)
      hmem.2.imp fun _ h => h.1
    simp [keptAfter, hl, hc]

theorem Recalls.seen_le {start s : Client} {past : List Moment} (h : Recalls start past s)
    {c : Call} (hc : c ∈ s.calls) {n : Nat} (hn : c.phase.seen? = some n) :
    n ≤ s.cache.count c.line := by
  obtain ⟨given, earlier, entry, during, hent, -, hseen⟩ := h.began c hc
  rw [h.count, hent.past, stores_append, List.length_append, hseen n hn]
  exact Nat.le_add_right _ _

/-- A step keeps what was kept, or stores the catalog that the moment tells of. -/
theorem cache_step {s s' : Client} {e : Event} {o : Outcome} (hr : Rule s e o s') :
    (Moment.stored? ⟨e, s.now, o⟩ = none ∧ s'.cache = s.cache) ∨
      ∃ host catalog, Moment.stored? ⟨e, s.now, o⟩ = some catalog ∧
        Moment.Brought ⟨e, s.now, o⟩ host catalog ∧ s'.cache = s.cache.store s.now catalog := by
  cases hr with
  | refuse => exact .inl ⟨rfl, rfl⟩
  | hit => exact .inl ⟨rfl, rfl⟩
  | join => exact .inl ⟨rfl, rfl⟩
  | share => exact .inl ⟨rfl, rfl⟩
  | stop => exact .inl ⟨rfl, rfl⟩
  | depart => exact .inl ⟨rfl, rfl⟩
  | fail => exact .inl ⟨rfl, rfl⟩
  | @keep c body d there turn read =>
    exact .inr ⟨c.host, _, rfl, ⟨c.id, body, d, rfl, rfl, read, rfl⟩, rfl⟩
  | cancel => exact .inl ⟨rfl, rfl⟩
  | pass => exact .inl ⟨rfl, rfl⟩

theorem kept_step {s s' : Client} {past : List Moment} {e : Event} {o : Outcome}
    {start : Client} (h : Recalls start past s) (hr : Rule s e o s') (line : String) :
    s'.cache.find? line = keptAfter line (past ++ [⟨e, s.now, o⟩]) := by
  rcases cache_step hr with ⟨hm, hc⟩ | ⟨host, catalog, hm, -, hc⟩
  -- without a store nothing is added, and with one only its own line gets something new
  · rw [hc, h.kept line, keptAfter, keptAfter, stores_append, stores_of_none hm, List.append_nil]
  · rw [hc]
    by_cases hl : line = catalog.line
    · subst hl
      rw [Cache.find?_store_self, h.count, keptAfter, stores_append, stores_of_some hm]
      simp [hm]
    · rw [Cache.find?_store_of_ne _ _ hl, h.kept line, keptAfter, keptAfter, stores_append,
        stores_of_ne hm hl, List.append_nil]

/-- Time does not run back, and nothing else of the surroundings changes. -/
theorem surroundings_step {s s' : Client} {e : Event} {o : Outcome} (hr : Rule s e o s') :
    s.now ≤ s'.now ∧ s'.cache.ttl = s.cache.ttl ∧ s'.misconfigured = s.misconfigured := by
  cases hr with
  | pass milliseconds => exact ⟨Nat.le_add_right _ _, rfl, rfl⟩
  | _ => exact ⟨Nat.le_refl _, rfl, rfl⟩

/-- No call enters under the id of one that has not ended. -/
theorem not_reentered {s s' : Client} {e : Event} {o : Outcome} (hr : Rule s e o s') {c : Call}
    (hc : c ∈ s.calls) (given : String) (forced : Bool) : e ≠ .enter c.id given forced := by
  rintro rfl
  cases hr with
  | refuse fresh => exact find_none fresh c hc rfl
  | hit fresh => exact find_none fresh c hc rfl
  | join fresh => exact find_none fresh c hc rfl

theorem Entered.extend {past earlier during : List Moment} {id : Nat} {given : String}
    {forced : Bool} {entry : Moment} (h : Entered past id given forced earlier entry during)
    {m : Moment} (hm : ∀ given' forced', m.event ≠ .enter id given' forced') :
    Entered (past ++ [m]) id given forced earlier entry (during ++ [m]) where
  past := by simp [h.past]
  entry := h.entry
  last := by
    intro x hx
    rcases List.mem_append.mp hx with hx | hx
    · exact h.last x hx
    · exact List.mem_singleton.mp hx ▸ hm

/-- What has happened since the entry, if it is the last moment. -/
theorem Entered.now (past : List Moment) {m : Moment} {id : Nat} {given : String} {forced : Bool}
    (hm : m.event = .enter id given forced) :
    Entered (past ++ [m]) id given forced past m [] :=
  ⟨rfl, hm, fun _ h => by cases h⟩

theorem began_step {start s s' : Client} {past : List Moment} {e : Event} {o : Outcome}
    (h : Recalls start past s) (hr : Rule s e o s') {c' : Call} (hc : c' ∈ s'.calls) :
    Began (past ++ [⟨e, s.now, o⟩]) c' := by
  rcases call_origin hr hc with ⟨c, hc, hgo, -⟩ | ⟨given, he, hp, -, hseen⟩
  -- it was there before the step, which adds one moment to those since its entry
  · obtain ⟨given, earlier, entry, during, hent, hp, hn⟩ := h.began c hc
    have hext := hent.extend (m := ⟨e, s.now, o⟩) (not_reentered hr hc)
    refine ⟨given, earlier, entry, during ++ [⟨e, s.now, o⟩], ?_, hgo.host ▸ hp, fun n hs => ?_⟩
    · rw [hgo.id, hgo.forced]
      exact hext
    · rw [hn n (hgo.seen n hs), Call.line, Call.line, hgo.host]
  -- or it enters in the step, and reads how much was stored so far
  · refine ⟨given, past, _, [], Entered.now past he, hp, fun n hs => ?_⟩
    rw [hseen] at hs
    cases hs
    exact h.count c'.line

/-- Every step adds to the past what it does to the client. -/
theorem Recalls.step {start s s' : Client} {past : List Moment} {e : Event} {o : Outcome}
    (h : Recalls start past s) (hr : Rule s e o s') :
    Recalls start (past ++ [⟨e, s.now, o⟩]) s' where
  ttl := (surroundings_step hr).2.1.trans h.ttl
  kept := kept_step h hr
  clock := by
    intro m hm
    have hnow := (surroundings_step hr).1
    rcases List.mem_append.mp hm with hm | hm
    · exact Nat.le_trans (h.clock m hm) hnow
    · rw [List.mem_singleton.mp hm]
      exact hnow
  calls := orderly_step h.calls hr
  began := fun _ hc => began_step h hr hc
  brought := by
    intro m hm catalog hs
    rcases List.mem_append.mp hm with hm | hm
    · exact h.brought m hm catalog hs
    · obtain rfl := List.mem_singleton.mp hm
      rcases cache_step hr with ⟨hn, -⟩ | ⟨host, stored, hm, hb, -⟩
      · rw [hn] at hs
        cases hs
      · rw [hm] at hs
        cases hs
        exact ⟨host, hb⟩

/-- A run of an unused client leaves nothing that the past does not tell. -/
theorem Run.recalls {misconfigured : Option PluginDirectory.Error} {ttl now : Nat} {s : Client}
    {past : List Moment} (h : Run (unused misconfigured ttl now) past s) :
    Recalls (unused misconfigured ttl now) past s := by
  -- on the run; a step needs nothing but what the past before it tells
  induction h with
  | start =>
    exact {
      ttl := rfl
      kept := fun _ => rfl
      clock := fun _ hm => by cases hm
      calls := ⟨List.nodup_nil, fun _ _ _ hl => by cases hl⟩
      began := fun _ hc => by cases hc
      brought := fun _ hm => by cases hm }
  | next before step ih => exact ih.step (rule_of_step step)

/-- A run that ends in something has a run before it. -/
theorem Run.last {start s' : Client} {past : List Moment} {m : Moment}
    (h : Run start (past ++ [m]) s') :
    ∃ s, Run start past s ∧ m.time = s.now ∧ Rule s m.event m.outcome s' := by
  generalize hl : past ++ [m] = all at h
  cases h with
  | start => simp at hl
  | @next before s _ e o hb hs =>
    obtain ⟨rfl, hm⟩ := List.append_inj' hl rfl
    cases hm
    exact ⟨s, hb, rfl, rule_of_step hs⟩

/-- Every beginning of a run is a run. -/
theorem Run.of_append {start : Client} {past later : List Moment} {s : Client}
    (h : Run start (past ++ later) s) : ∃ s', Run start past s' := by
  induction later using List.reverseRecOn generalizing s with
  | nil => exact ⟨s, by simpa using h⟩
  | append_singleton later m ih =>
    rw [← List.append_assoc] at h
    obtain ⟨s', hb, -⟩ := h.last
    exact ih hb

end PluginResolution.Catalog.Client
