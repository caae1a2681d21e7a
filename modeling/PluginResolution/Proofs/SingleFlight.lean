import Mathlib.Data.Nat.Find
import PluginResolution.Proofs.ClientHistory

namespace PluginResolution.Catalog.Client

/-- A client that goes on forever. It always can, as time can pass. -/
structure Execution (start : Client) where
  state : Nat → Client
  event : Nat → Event
  outcome : Nat → Outcome
  first : state 0 = start
  next : ∀ n, (state n).step (event n) = some (outcome n, state (n + 1))

namespace Execution

variable {start : Client}

/-- A call that has its turn is resumed or given up sometime. -/
def Fair (x : Execution start) : Prop :=
  ∀ n, ∀ c ∈ (x.state n).calls, ∀ seen, c.phase = .admitted seen →
    ∃ m, n ≤ m ∧ (x.event m = .resume c.id ∨ x.event m = .cancel c.id)

structure First (x : Execution start) (id n : Nat) : Prop where
  about : (x.event n).call? = some id
  before : ∀ k < n, (x.event k).call? ≠ some id

end Execution

structure SingleFlight (ttl : Nat) (past : List Moment) (s : Client) : Prop where
  alone : ∀ c ∈ s.calls, ∀ d ∈ s.calls, c.phase = .fetching → d.phase = .fetching →
    c.line = d.line → c = d
  needed : ∀ e s', s.step e = some (.fetches, s') →
    ∃ id given forced host earlier entry during, e.call? = some id ∧
      Entered past id given forced earlier entry during ∧
      HostVersion.parse given = .ok host ∧ stores host.line during = []
  /-- A fetch that brings a directory serves every other call of the line. Unless that is given up
  before, it ends with a catalog when it is resumed, and sometime it is. -/
  shared : ∀ leader ∈ s.calls, leader.phase = .fetching →
    ∀ body d, PluginDirectory.parse body = .ok d →
    ∃ s', s.step (.answer leader.id (.ok body)) =
        some (.ended (.ok (PluginDirectory.catalogFor d leader.host)), s') ∧
      ∀ c ∈ s.calls, c.line = leader.line → c ≠ leader →
        c.phase.isQueued = true ∧ ∀ x : Execution s',
        (∀ n, x.First c.id n → x.event n = .cancel c.id ∨
          ∃ catalog, x.event n = .resume c.id ∧ x.outcome n = .ended (.ok catalog)) ∧
        (x.Fair → ∃ n, x.First c.id n)
  fresh : ∀ id given host m, s.find? id = none → HostVersion.parse given = .ok host →
    (stores host.line past).getLast? = some m → s.now < m.time + ttl →
    ∃ catalog, m.stored? = some catalog ∧
      s.step (.enter id given false) = some (.ended (.ok catalog), s)

def lineIds (line : String) (calls : List Call) : List Nat :=
  (onLine line calls).map (·.id)

/-- What has been stored for the line is news for the call with that id and for all those before
it, so none of them will fetch. -/
structure Informed (line : String) (ahead : List Nat) (id : Nat) (s : Client) : Prop where
  queue : ∃ behind, lineIds line s.calls = ahead ++ id :: behind
  news : ∀ c ∈ s.calls, c.line = line → c.id ∈ ahead ++ [id] →
    ∃ n, c.phase.seen? = some n ∧ n < s.cache.count line

theorem mem_lineIds {line : String} {calls : List Call} {id : Nat} :
    id ∈ lineIds line calls ↔ ∃ c ∈ calls, c.line = line ∧ c.id = id := by
  simp [lineIds, mem_onLine, and_assoc]

theorem lineIds_promote (line other : String) (calls : List Call) :
    lineIds line (promote other calls) = lineIds line calls := by
  by_cases h : line = other
  · subst h
    rw [lineIds, onLine_promote_self, lineIds]
    cases onLine line calls with
    | nil => rfl
    | cons c rest => simp [admitFirst]
  · rw [lineIds, onLine_promote_of_ne h, lineIds]

theorem lineIds_leave (line : String) (s : Client) (c : Call) :
    lineIds line (s.leave c).calls = (lineIds line s.calls).filter (· ≠ c.id) := by
  rw [leave, lineIds_promote, lineIds, lineIds, onLine, onLine, List.filter_map,
    List.filter_filter, List.filter_filter]
  congr 1
  refine List.filter_congr fun d _ => ?_
  exact Bool.and_comm _ _

theorem lineIds_join (line : String) (s : Client) (id : Nat) (host : HostVersion) (forced : Bool) :
    lineIds line (s.join id host forced).calls =
      lineIds line s.calls ++ if host.line = line then [id] else [] := by
  obtain ⟨phase, hcalls, -, -⟩ := calls_join s id host forced
  rw [hcalls, lineIds, lineIds, onLine, onLine, List.filter_append, List.map_append]
  by_cases hl : host.line = line
  · simp [Call.line, hl]
  · simp [Call.line, hl]

theorem lineIds_setPhase (line : String) (s : Client) (id : Nat) (p : Phase) :
    lineIds line (s.setPhase id p).calls = lineIds line s.calls := by
  rw [lineIds, onLine_setPhase, List.map_map, lineIds]
  refine List.map_congr_left fun c _ => ?_
  simp only [Function.comp, inPhase]
  split <;> rfl

/-- Nothing that was stored is forgotten. -/
theorem count_step {s s' : Client} {e : Event} {o : Outcome} (hr : Rule s e o s') (line : String) :
    s.cache.count line ≤ s'.cache.count line := by
  rcases cache_step hr with ⟨-, hc⟩ | ⟨host, catalog, -, -, hc⟩
  · exact hc ▸ Nat.le_refl _
  · rw [hc]
    by_cases hl : line = catalog.line
    · subst hl
      rw [Cache.count_store_self]
      exact Nat.le_succ _
    · exact (Cache.count_store_of_ne _ _ hl).symm ▸ Nat.le_refl _

variable {line : String} {ahead : List Nat} {id : Nat} {s s' : Client} {e : Event} {o : Outcome}

theorem Informed.mem (h : Informed line ahead id s) {a : Nat} (ha : a ∈ ahead ++ [id]) :
    ∃ c ∈ s.calls, c.line = line ∧ c.id = a := by
  obtain ⟨behind, hq⟩ := h.queue
  refine mem_lineIds.mp ?_
  rw [hq]
  simp only [List.mem_append, List.mem_cons] at ha ⊢
  tauto

/-- Who is informed does not fetch. -/
theorem Informed.not_stale (h : Informed line ahead id s) (ho : Orderly s.calls) {c : Call}
    (hc : c ∈ s.calls) (ha : c.id ∈ ahead ++ [id]) {seen : Nat} (hp : c.phase = .admitted seen) :
    s.cache.newer? c.line seen ≠ none := by
  obtain ⟨d, hd, hline, hid⟩ := h.mem ha
  obtain rfl := ho.eq_of_id hd hc hid
  obtain ⟨n, hn, hlt⟩ := h.news d hd hline ha
  rw [hp] at hn
  cases hn
  intro hnone
  rw [hline] at hnone
  exact absurd (Cache.newer?_eq_none.mp hnone) (by omega)

theorem Informed.not_fetching (h : Informed line ahead id s) (ho : Orderly s.calls) {c : Call}
    (hc : c ∈ s.calls) (ha : c.id ∈ ahead ++ [id]) : c.phase ≠ .fetching := by
  obtain ⟨d, hd, hline, hid⟩ := h.mem ha
  obtain rfl := ho.eq_of_id hd hc hid
  obtain ⟨n, hn, -⟩ := h.news d hd hline ha
  intro hp
  rw [hp] at hn
  cases hn

/-- The first thing that happens to an informed call is that it is given up or ends well. -/
theorem Informed.ends (h : Informed line ahead id s) (ho : Orderly s.calls) (hr : Rule s e o s')
    (he : e.call? = some id) :
    e = .cancel id ∨ ∃ catalog, e = .resume id ∧ o = .ended (.ok catalog) := by
  have hin : id ∈ ahead ++ [id] := List.mem_append_right _ (List.mem_singleton_self id)
  obtain ⟨c, hc, -, hid⟩ := h.mem hin
  cases hr with
  -- no call enters under an id that is taken
  | refuse fresh => cases he; exact absurd hid (find_none fresh c hc)
  | hit fresh => cases he; exact absurd hid (find_none fresh c hc)
  | join fresh => cases he; exact absurd hid (find_none fresh c hc)
  | share => cases he; exact .inr ⟨_, rfl, rfl⟩
  -- there is something newer than it has seen, so it neither fetches nor has begun to
  | stop there turn none_newer =>
    cases he
    exact absurd none_newer (h.not_stale ho (find_mem there).1 hin turn)
  | depart there turn none_newer =>
    cases he
    exact absurd none_newer (h.not_stale ho (find_mem there).1 hin turn)
  | fail there turn =>
    cases he
    exact absurd turn (h.not_fetching ho (find_mem there).1 hin)
  | keep there turn =>
    cases he
    exact absurd turn (h.not_fetching ho (find_mem there).1 hin)
  | cancel => cases he; exact .inl rfl
  | pass => cases he

/-- The queue before an informed call after a step that is not about it: it has lost the call that
the step is about, if that was in it, and nothing else has changed. -/
theorem Informed.queue_step (h : Informed line ahead id s) (ho : Orderly s.calls)
    (hr : Rule s e o s') (he : e.call? ≠ some id) :
    ∃ behind, lineIds line s'.calls = ahead.filter (e.call? ≠ some ·) ++ id :: behind := by
  obtain ⟨behind, hq⟩ := h.queue
  have hstays (a : Nat) (hfresh : s.find? a = none) : ∀ b ∈ ahead, b ≠ a := by
    rintro b hb rfl
    obtain ⟨c, hc, -, hid⟩ := h.mem (List.mem_append_left _ hb)
    exact find_none hfresh c hc hid
  have hsame (hne : ∀ b ∈ ahead, e.call? ≠ some b) : ahead.filter (e.call? ≠ some ·) = ahead := by
    rw [List.filter_eq_self]
    intro b hb
    simpa using hne b hb
  have hleft (c : Call) (hec : e.call? = some c.id) :
      ∃ behind, lineIds line (s.leave c).calls =
        ahead.filter (e.call? ≠ some ·) ++ id :: behind := by
    have hne : id ≠ c.id := fun hid => he (hid ▸ hec)
    refine ⟨behind.filter (· ≠ c.id), ?_⟩
    rw [lineIds_leave, hq, List.filter_append, List.filter_cons_of_pos (by simpa using hne)]
    simp only [hec, ne_eq, Option.some.injEq, eq_comm]
  cases hr with
  | @refuse a _ _ _ fresh =>
    refine ⟨behind, ?_⟩
    rw [hsame fun b hb hab => hstays a fresh b hb (Option.some.inj hab).symm, hq]
  | @hit a _ _ _ fresh =>
    refine ⟨behind, ?_⟩
    rw [hsame fun b hb hab => hstays a fresh b hb (Option.some.inj hab).symm, hq]
  | @join a given host forced fresh =>
    refine ⟨behind ++ if host.line = line then [a] else [], ?_⟩
    rw [hsame fun b hb hab => hstays a fresh b hb (Option.some.inj hab).symm, lineIds_join, hq]
    simp
  | share => exact hleft _ rfl
  | stop => exact hleft _ rfl
  | @depart c _ there turn none_newer =>
    refine ⟨behind, ?_⟩
    rw [lineIds_setPhase, hq, hsame]
    -- a call that departs has no news
    intro b hb hcb
    have hcid : c.id = b := Option.some.inj hcb
    have hin : c.id ∈ ahead ++ [id] := List.mem_append_left _ (hcid ▸ hb)
    exact h.not_stale ho (find_mem there).1 hin turn none_newer
  | fail => exact hleft _ rfl
  | keep => exact hleft _ rfl
  | cancel => exact hleft _ rfl
  | pass => exact ⟨behind, by rw [hsame (fun b _ hb => by cases hb)]; exact hq⟩

/-- A step that is not about an informed call leaves it informed. -/
theorem Informed.step (h : Informed line ahead id s) (ho : Orderly s.calls) (hr : Rule s e o s')
    (he : e.call? ≠ some id) : Informed line (ahead.filter (e.call? ≠ some ·)) id s' where
  queue := h.queue_step ho hr he
  news := by
    intro c' hc' hline hin
    have hne : e.call? ≠ some c'.id := by
      rcases List.mem_append.mp hin with hin | hin
      · simpa using (List.mem_filter.mp hin).2
      · rwa [List.mem_singleton.mp hin]
    have hin : c'.id ∈ ahead ++ [id] := by
      rcases List.mem_append.mp hin with hin | hin
      · exact List.mem_append_left _ (List.mem_filter.mp hin).1
      · exact List.mem_append_right _ hin
    -- it remembers what it has seen, as the step is not its own, and no store is forgotten
    rcases call_origin hr hc' with ⟨c, hc, hgo, hseen⟩ | ⟨given, rfl, -⟩
    · have hcline : c.line = line := by rw [← hline, Call.line, Call.line, hgo.host]
      obtain ⟨n, hn, hlt⟩ := h.news c hc hcline (hgo.id ▸ hin)
      have hcount := count_step hr line
      exact ⟨n, (hseen (hgo.id ▸ hne)).trans hn, by omega⟩
    · exact absurd rfl hne

/-- The first call of the line of an informed call is informed as well, and has its turn. -/
theorem Informed.turn (h : Informed line ahead id s) (ho : Orderly s.calls) :
    ∃ c ∈ s.calls, c.id ∈ ahead ++ [id] ∧ ∃ seen, c.phase = .admitted seen := by
  obtain ⟨behind, hq⟩ := h.queue
  cases hl : onLine line s.calls with
  | nil => simp [lineIds, hl] at hq
  | cons c rest =>
    have hmem := mem_onLine.mp (hl ▸ List.mem_cons_self : c ∈ onLine line s.calls)
    have hin : c.id ∈ ahead ++ [id] := by
      rw [lineIds, hl, List.map_cons] at hq
      cases ahead with
      | nil => simp [(List.cons.inj hq).1]
      | cons a tail => simp [(List.cons.inj hq).1]
    obtain ⟨n, hn, -⟩ := h.news c hmem.1 hmem.2 hin
    have hturn := (ho.turns line c rest hl).1
    refine ⟨c, hmem.1, hin, ?_⟩
    -- the first of a line is not queued, and who is informed does not fetch
    cases hp : c.phase with
    | queued seen =>
      rw [hp] at hturn
      cases hturn
    | admitted seen => exact ⟨seen, rfl⟩
    | fetching =>
      rw [hp] at hn
      cases hn

namespace Execution

variable {start : Client} (x : Execution start)

theorem rule (n : Nat) : Rule (x.state n) (x.event n) (x.outcome n) (x.state (n + 1)) :=
  rule_of_step (x.next n)

theorem orderly (ho : Orderly start.calls) (n : Nat) : Orderly (x.state n).calls := by
  induction n with
  | zero => rwa [x.first]
  | succ n ih => exact orderly_step ih (x.rule n)

/-- A call that is informed at the start stays so until something happens to it. -/
theorem informed (h : Informed line ahead id start) (ho : Orderly start.calls) {n : Nat}
    (hb : ∀ k < n, (x.event k).call? ≠ some id) : ∃ ahead, Informed line ahead id (x.state n) := by
  induction n with
  | zero =>
    rw [x.first]
    exact ⟨ahead, h⟩
  | succ n ih =>
    obtain ⟨ahead, hn⟩ := ih fun k hk => hb k (Nat.lt_succ_of_lt hk)
    have hne := hb n (Nat.lt_succ_self n)
    exact ⟨_, hn.step (x.orderly ho n) (x.rule n) hne⟩

/-- Until one of the calls that are ahead goes on, the queue before an informed call stays as it is,
and then it gets shorter. -/
theorem shortens (ho : Orderly start.calls) {a j n : Nat} (h : Informed line ahead id (x.state n))
    (hin : a ∈ ahead ++ [id]) (habout : (x.event (n + j)).call? = some a) :
    ∃ m, n ≤ m ∧ ((x.event m).call? = some id ∨
      ∃ ahead', ahead'.length < ahead.length ∧ Informed line ahead' id (x.state m)) := by
  -- on the number of steps until the event about that call
  induction j generalizing n with
  | zero =>
    by_cases he : (x.event n).call? = some id
    · exact ⟨n, Nat.le_refl n, .inl he⟩
    · have hstep := h.step (x.orderly ho n) (x.rule n) he
      have hin : a ∈ ahead := by
        rcases List.mem_append.mp hin with hin | hin
        · exact hin
        · exact absurd (List.mem_singleton.mp hin ▸ habout) he
      have hlt : (ahead.filter ((x.event n).call? ≠ some ·)).length < ahead.length :=
        List.length_filter_lt_length_iff_exists.mpr ⟨a, hin, by simpa using habout⟩
      exact ⟨n + 1, Nat.le_succ n, .inr ⟨_, hlt, hstep⟩⟩
  | succ j ih =>
    by_cases he : (x.event n).call? = some id
    · exact ⟨n, Nat.le_refl n, .inl he⟩
    · have hstep := h.step (x.orderly ho n) (x.rule n) he
      by_cases hall : ahead.filter ((x.event n).call? ≠ some ·) = ahead
      · have hnext : n + 1 + j = n + (j + 1) := by omega
        obtain ⟨m, hm, hcase⟩ := ih (hall ▸ hstep) (hnext ▸ habout)
        exact ⟨m, Nat.le_of_succ_le hm, hcase⟩
      · have hle := List.length_filter_le ((x.event n).call? ≠ some ·) ahead
        have hne := mt List.length_filter_eq_length_iff.mp (mt List.filter_eq_self.mpr hall)
        exact ⟨n + 1, Nat.le_succ n, .inr ⟨_, Nat.lt_of_le_of_ne hle hne, hstep⟩⟩

/-- Something happens to an informed call in the end, as the first call of its line always has its
turn. -/
theorem eventually (ho : Orderly start.calls) (hf : x.Fair) {n : Nat}
    (h : Informed line ahead id (x.state n)) : ∃ m, (x.event m).call? = some id := by
  -- on the length of the queue before the call
  induction hlen : ahead.length using Nat.strongRecOn generalizing ahead n with
  | ind len shorter =>
    obtain ⟨c, hc, hin, seen, hp⟩ := h.turn (x.orderly ho n)
    obtain ⟨m, hm, hcm⟩ := hf n c hc seen hp
    obtain ⟨j, rfl⟩ := Nat.exists_eq_add_of_le hm
    have habout : (x.event (n + j)).call? = some c.id := by
      rcases hcm with hcm | hcm
      · rw [hcm]
        rfl
      · rw [hcm]
        rfl
    obtain ⟨m, -, hid | ⟨ahead', hlt, hinf⟩⟩ := x.shortens ho h hin habout
    · exact ⟨m, hid⟩
    · exact shorter _ (hlen ▸ hlt) hinf rfl

/-- So an informed call ends with a catalog, unless it is given up. -/
theorem informed_first (h : Informed line ahead id start) (ho : Orderly start.calls) :
    (∀ n, x.First id n → x.event n = .cancel id ∨
      ∃ catalog, x.event n = .resume id ∧ x.outcome n = .ended (.ok catalog)) ∧
    (x.Fair → ∃ n, x.First id n) := by
  constructor
  · intro n hn
    obtain ⟨ahead, hinf⟩ := x.informed h ho hn.before
    exact hinf.ends (x.orderly ho n) (x.rule n) hn.about
  · intro hf
    have hex := x.eventually ho hf (n := 0) (x.first.symm ▸ h)
    have hfirst := Nat.find_spec hex
    exact ⟨Nat.find hex, hfirst, fun k hk => Nat.find_min hex hk⟩

end Execution

/-- When the directory has come for a call, all the others of its line are informed. -/
theorem informed_keep {start : Client} {past : List Moment} (h : Recalls start past s)
    {leader : Call} (there : s.find? leader.id = some leader) (turn : leader.phase = .fetching)
    {catalog : Catalog} (hl : catalog.line = leader.line) {c : Call} (hc : c ∈ s.calls)
    (hline : c.line = leader.line) (hne : c ≠ leader) :
    ∃ ahead, Informed leader.line ahead c.id (s.keep leader catalog) := by
  have hm := (find_mem there).1
  have hid : c.id ≠ leader.id := fun he => hne (h.calls.eq_of_id hc hm he)
  have hqueue : lineIds leader.line (s.keep leader catalog).calls =
      (lineIds leader.line s.calls).filter (· ≠ leader.id) :=
    lineIds_leave leader.line { s with cache := s.cache.store s.now catalog } leader
  have hmem : c.id ∈ lineIds leader.line (s.keep leader catalog).calls := by
    rw [hqueue]
    exact List.mem_filter.mpr ⟨mem_lineIds.mpr ⟨c, hc, hline, rfl⟩, by simpa using hid⟩
  obtain ⟨ahead, behind, hsplit⟩ := List.append_of_mem hmem
  refine ⟨ahead, ⟨behind, hsplit⟩, fun d' hd' hdl _ => ?_⟩
  obtain ⟨d, hd, hdid, hgo, hseen⟩ := goesOn_leave hd'
  have hdline : d.line = leader.line := by rw [← hdl, Call.line, Call.line, hgo.host]
  have hqueued := h.calls.behind hm (by rw [turn]; rfl) hd hdline fun he => hdid (he ▸ rfl)
  -- it is queued, and has seen at most what was stored before the directory came
  cases hp : d.phase with
  | queued n =>
    have hn : d.phase.seen? = some n := by rw [hp]; rfl
    have hold : n ≤ s.cache.count leader.line := hdline ▸ h.seen_le hd hn
    have hnew : (s.cache.store s.now catalog).count leader.line =
        s.cache.count leader.line + 1 := by
      rw [← hl, Cache.count_store_self]
    have hlt : n < (s.cache.store s.now catalog).count leader.line := by omega
    exact ⟨n, hseen.trans hn, hlt⟩
  | admitted n =>
    rw [hp] at hqueued
    cases hqueued
  | fetching =>
    rw [hp] at hqueued
    cases hqueued

/-- The last store of a line is what is kept, and it is fresh for its time to live. -/
theorem Recalls.fresh_of_store {start s : Client} {past : List Moment} (h : Recalls start past s)
    {line : String} {m : Moment} (hm : (stores line past).getLast? = some m)
    (hage : s.now < m.time + start.cache.ttl) :
    ∃ catalog, m.stored? = some catalog ∧ s.cache.fresh? s.now line = some catalog := by
  have hmem := mem_stores (List.mem_of_getLast? hm)
  obtain ⟨hpast, catalog, hc, -⟩ := hmem
  refine ⟨catalog, hc, ?_⟩
  have hkept : s.cache.find? line = some ⟨catalog, m.time, (stores line past).length⟩ := by
    rw [h.kept line, keptAfter, hm, Option.bind_some, hc, Option.map_some]
  have hle := h.clock m hpast
  have hlt : s.now - m.time < s.cache.ttl := by
    rw [h.ttl]
    omega
  rw [Cache.fresh?, hkept, Option.filter_some, if_pos (by simpa using hlt), Option.map_some]

/-- A call that begins to fetch has entered after the last store of its line. -/
theorem Recalls.needed {start s s' : Client} {past : List Moment} (h : Recalls start past s)
    {e : Event} (hr : Rule s e .fetches s') :
    ∃ id given forced host earlier entry during, e.call? = some id ∧
      Entered past id given forced earlier entry during ∧
      HostVersion.parse given = .ok host ∧ stores host.line during = [] := by
  cases hr with
  | @depart c n there turn none_newer =>
    obtain ⟨given, earlier, entry, during, hent, hp, hseen⟩ := h.began c (find_mem there).1
    have hn : n = (stores c.line earlier).length := hseen n (by rw [turn]; rfl)
    have hall : s.cache.count c.line ≤ n := Cache.newer?_eq_none.mp none_newer
    have hentry := stores_of_none (stored_enter hent.entry) c.line
    rw [h.count, hent.past, stores_append, ← List.singleton_append, stores_append, hentry,
      List.nil_append, List.length_append, hn] at hall
    have hnone : (stores c.line during).length = 0 := by omega
    exact ⟨c.id, given, c.forced, c.host, earlier, entry, during, rfl, hent, hp,
      List.eq_nil_of_length_eq_zero hnone⟩

/-- Calls of one line share one fetch, whatever the order of their steps. -/
theorem singleFlight_of_run {misconfigured : Option PluginDirectory.Error} {ttl now : Nat}
    {past : List Moment} {s : Client} (run : Run (unused misconfigured ttl now) past s) :
    SingleFlight ttl past s := by
  have hrec := run.recalls
  refine ⟨?_, ?_, ?_, ?_⟩
  · intro c hc d hd hcp hdp hline
    by_contra hne
    have hq := hrec.calls.behind hc (by rw [hcp]; rfl) hd hline.symm (Ne.symm hne)
    rw [hdp] at hq
    cases hq
  · intro e s' hs
    exact hrec.needed (rule_of_step hs)
  · intro leader hl hp body d hread
    have there : s.find? leader.id = some leader := hrec.calls.find hl
    have hstep := step_keep there hp hread
    have hmade : (d.catalogFor leader.host).line = leader.line := rfl
    refine ⟨_, hstep, fun c hc hline hne => ⟨?_, fun x => ?_⟩⟩
    · exact hrec.calls.behind hl (by rw [hp]; rfl) hc hline hne
    · obtain ⟨ahead, hinf⟩ := informed_keep hrec there hp hmade hc hline hne
      exact x.informed_first hinf (orderly_step hrec.calls (rule_of_step hstep))
  · intro id given host m hfree hp hm hage
    obtain ⟨catalog, hc, hfresh⟩ := hrec.fresh_of_store hm hage
    refine ⟨catalog, hc, ?_⟩
    simp only [step, hfree, Option.isSome_none, Bool.false_eq_true, if_false, enter, hp, hfresh]

/-- One call fetches and another one waits for it, which gets the same catalog when it is resumed. -/
theorem singleFlight_of_two_calls :
    ∃ past s s', Run (unused none 10 0) past s ∧
      s.step (.answer 0 (.ok "a:")) = some (.ended (.ok ⟨"0.24", [⟨"a", none, {}⟩]⟩), s') ∧
      ∃ x : Execution s', x.Fair ∧
        ∃ n catalog, x.First 1 n ∧ x.outcome n = .ended (.ok catalog) := by
  let host : HostVersion := ⟨"0.24.1", 0, 24⟩
  let catalog : Catalog := ⟨"0.24", [⟨"a", none, {}⟩]⟩
  let leader : Call := ⟨0, host, true, .fetching⟩
  let waiting : Call := ⟨1, host, false, .queued 0⟩
  let s₁ : Client := { unused none 10 0 with calls := [⟨0, host, true, .admitted 0⟩] }
  let s₂ : Client := { unused none 10 0 with calls := [leader] }
  let s₃ : Client := { unused none 10 0 with calls := [leader, waiting] }
  let last : Client := { cache := { ttl := 10, kept := [("0.24", ⟨catalog, 0, 1⟩)] } }
  let s₄ : Client := { last with calls := [⟨1, host, false, .admitted 0⟩] }
  have entered : (unused none 10 0).step (.enter 0 "0.24.1" true) = some (.waits, s₁) := rfl
  have departed : s₁.step (.resume 0) = some (.fetches, s₂) := rfl
  have joined : s₂.step (.enter 1 "0.24.1" false) = some (.waits, s₃) := by
    have hjoin : s₂.join 1 host false = s₃ := by decide +kernel
    rw [← hjoin]
    rfl
  have run := ((Run.start.next entered).next departed).next joined
  have read : PluginDirectory.parse "a:" = .ok [{ key := "a" }] := by decide +kernel
  have answered : s₃.step (.answer 0 (.ok "a:")) = some (.ended (.ok catalog), s₄) := by
    have made : PluginDirectory.catalogFor [{ key := "a" }] host = catalog := by decide +kernel
    have hkeep := step_keep (s := s₃) (c := leader) rfl rfl read
    rw [made] at hkeep
    have hkept : s₃.keep leader catalog = s₄ := by decide +kernel
    rw [hkept] at hkeep
    exact hkeep
  have resumed : s₄.step (.resume 1) = some (.ended (.ok catalog), last) := by
    have hnewer : s₄.cache.newer? host.line 0 = some catalog := by decide +kernel
    have hresume : s₄.resume ⟨1, host, false, .admitted 0⟩ 0 = (.ended (.ok catalog), last) := by
      rw [resume, Call.line, hnewer]
      rfl
    exact congrArg some hresume
  let x : Execution s₄ := {
    state := fun n => if n = 0 then s₄ else last
    event := fun n => if n = 0 then .resume 1 else .pass 0
    outcome := fun n => if n = 0 then .ended (.ok catalog) else .waits
    first := rfl
    next := fun n => by cases n with
      | zero => exact resumed
      | succ n => rfl }
  have fair : x.Fair := by
    intro n c hc seen hp
    cases n with
    | zero =>
      obtain rfl := List.mem_singleton.mp hc
      exact ⟨0, Nat.le_refl 0, .inl rfl⟩
    | succ n => cases hc
  obtain ⟨s', hs', hshared⟩ :=
    (singleFlight_of_run run).shared leader List.mem_cons_self rfl "a:" _ read
  obtain rfl : s₄ = s' := by
    rw [answered] at hs'
    exact congrArg Prod.snd (Option.some.inj hs')
  have hwaiting : waiting ∈ s₃.calls := List.mem_cons_of_mem _ (List.mem_singleton_self waiting)
  obtain ⟨-, hx⟩ := hshared waiting hwaiting rfl (by decide)
  obtain ⟨hends, hfirst⟩ := hx x
  obtain ⟨n, hn⟩ := hfirst fair
  refine ⟨_, _, s₄, run, answered, x, fair, n, ?_⟩
  rcases hends n hn with hcancel | ⟨shared, -, hok⟩
  · cases n with
    | zero => cases hcancel
    | succ n => cases hcancel
  · exact ⟨shared, hn, hok⟩

end PluginResolution.Catalog.Client
