import Mathlib.Data.List.Nodup
import PluginResolution.Catalog.Client

namespace PluginResolution.Catalog

/-- How many catalogs of its line had been stored when a call began, as long as it has not looked
for a newer one. -/
def Phase.seen? : Phase → Option Nat
  | .queued seen => some seen
  | .admitted seen => some seen
  | .fetching => none

def Phase.isQueued : Phase → Bool
  | .queued _ => true
  | _ => false

@[simp] theorem Call.admit_id (c : Call) : c.admit.id = c.id := by
  unfold Call.admit; split <;> rfl

@[simp] theorem Call.admit_host (c : Call) : c.admit.host = c.host := by
  unfold Call.admit; split <;> rfl

@[simp] theorem Call.admit_forced (c : Call) : c.admit.forced = c.forced := by
  unfold Call.admit; split <;> rfl

@[simp] theorem Call.admit_line (c : Call) : c.admit.line = c.line := by
  rw [Call.line, Call.admit_host, Call.line]

@[simp] theorem Call.admit_seen (c : Call) : c.admit.phase.seen? = c.phase.seen? := by
  unfold Call.admit
  split
  · rename_i seen hp
    rw [hp]
    rfl
  · rfl

theorem Call.admit_not_queued (c : Call) : c.admit.phase.isQueued = false := by
  unfold Call.admit
  split
  · rfl
  · rename_i hp
    cases hq : c.phase with
    | queued seen => exact absurd hq (hp seen)
    | admitted seen => rfl
    | fetching => rfl

namespace Client

def Event.call? : Event → Option Nat
  | .enter id _ _ => some id
  | .resume id => some id
  | .answer id _ => some id
  | .cancel id => some id
  | .pass _ => none

inductive Rule (s : Client) : Event → Outcome → Client → Prop
  | refuse {id given forced e} (fresh : s.find? id = none)
      (unread : HostVersion.parse given = .error e) :
      Rule s (.enter id given forced) (.ended (.error (.invalidHostVersion e.given))) s
  | hit {id given host catalog} (fresh : s.find? id = none)
      (read : HostVersion.parse given = .ok host)
      (kept : s.cache.fresh? s.now host.line = some catalog) :
      Rule s (.enter id given false) (.ended (.ok catalog)) s
  | join {id given host forced} (fresh : s.find? id = none)
      (read : HostVersion.parse given = .ok host)
      (miss : forced = true ∨ s.cache.fresh? s.now host.line = none) :
      Rule s (.enter id given forced) .waits (s.join id host forced)
  | share {c seen catalog} (there : s.find? c.id = some c) (turn : c.phase = .admitted seen)
      (newer : s.cache.newer? c.line seen = some catalog) :
      Rule s (.resume c.id) (.ended (.ok catalog)) (s.leave c)
  | stop {c seen e} (there : s.find? c.id = some c) (turn : c.phase = .admitted seen)
      (none_newer : s.cache.newer? c.line seen = none) (nowhere : s.misconfigured = some e) :
      Rule s (.resume c.id) (.ended (.error e.toCatalogError)) (s.leave c)
  | depart {c seen} (there : s.find? c.id = some c) (turn : c.phase = .admitted seen)
      (none_newer : s.cache.newer? c.line seen = none) (somewhere : s.misconfigured = none) :
      Rule s (.resume c.id) .fetches (s.setPhase c.id .fetching)
  | fail {c answer e} (there : s.find? c.id = some c) (turn : c.phase = .fetching)
      (useless : answer.bind PluginDirectory.parse = .error e) :
      Rule s (.answer c.id answer) (.ended (.error e.toCatalogError)) (s.leave c)
  | keep {c body d} (there : s.find? c.id = some c) (turn : c.phase = .fetching)
      (read : PluginDirectory.parse body = .ok d) :
      Rule s (.answer c.id (.ok body)) (.ended (.ok (PluginDirectory.catalogFor d c.host)))
        (s.keep c (PluginDirectory.catalogFor d c.host))
  | cancel {c} (there : s.find? c.id = some c) : Rule s (.cancel c.id) .waits (s.leave c)
  | pass (milliseconds : Nat) :
      Rule s (.pass milliseconds) .waits { s with now := s.now + milliseconds }

theorem find_mem {s : Client} {id : Nat} {c : Call} (h : s.find? id = some c) :
    c ∈ s.calls ∧ c.id = id :=
  ⟨List.mem_of_find?_eq_some h, by simpa using List.find?_some h⟩

theorem find_none {s : Client} {id : Nat} (h : s.find? id = none) : ∀ c ∈ s.calls, c.id ≠ id := by
  simpa [find?] using h

/-- A call that enters is refused, finds a fresh copy or joins the others. -/
theorem rule_of_enter {s s' : Client} {id : Nat} {given : String} {forced : Bool} {o : Outcome}
    (fresh : s.find? id = none) (h : s.enter id given forced = (o, s')) :
    Rule s (.enter id given forced) o s' := by
  unfold enter at h
  cases hp : HostVersion.parse given with
  | error e =>
    rw [hp] at h
    cases h
    exact .refuse fresh hp
  | ok host =>
    simp only [hp] at h
    cases forced with
    | true =>
      cases h
      exact .join fresh hp (.inl rfl)
    | false =>
      cases hk : s.cache.fresh? s.now host.line with
      | none =>
        simp only [Bool.false_eq_true, if_false, hk] at h
        cases h
        exact .join fresh hp (.inr hk)
      | some catalog =>
        simp only [Bool.false_eq_true, if_false, hk] at h
        cases h
        exact .hit fresh hp hk

theorem rule_of_resume {s s' : Client} {c : Call} {seen : Nat} {o : Outcome}
    (there : s.find? c.id = some c) (turn : c.phase = .admitted seen)
    (h : s.resume c seen = (o, s')) : Rule s (.resume c.id) o s' := by
  unfold resume at h
  cases hk : s.cache.newer? c.line seen with
  | some catalog =>
    rw [hk] at h
    cases h
    exact .share there turn hk
  | none =>
    simp only [hk, fetch] at h
    cases hm : s.misconfigured with
    | some e =>
      simp only [hm] at h
      cases h
      exact .stop there turn hk hm
    | none =>
      simp only [hm] at h
      cases h
      exact .depart there turn hk hm

theorem rule_of_finish {s s' : Client} {c : Call} {o : Outcome}
    {answer : Except PluginDirectory.Error String} (there : s.find? c.id = some c)
    (turn : c.phase = .fetching) (h : s.finish c answer = (o, s')) :
    Rule s (.answer c.id answer) o s' := by
  unfold finish at h
  cases hb : answer.bind PluginDirectory.parse with
  | error e =>
    rw [hb] at h
    cases h
    exact .fail there turn hb
  | ok d =>
    rw [hb] at h
    cases h
    cases answer with
    | error e => cases hb
    | ok body => exact .keep there turn hb

/-- Every step goes one of these ways. -/
theorem rule_of_step {s s' : Client} {e : Event} {o : Outcome} (h : s.step e = some (o, s')) :
    Rule s e o s' := by
  cases e with
  | enter id given forced =>
    simp only [step] at h
    split at h
    · cases h
    · rename_i hn
      exact rule_of_enter (by simpa using hn) (Option.some.inj h)
  | resume id =>
    simp only [step] at h
    obtain ⟨c, hc, hs⟩ := Option.bind_eq_some_iff.mp h
    obtain ⟨-, rfl⟩ := find_mem hc
    split at hs
    · exact rule_of_resume hc ‹_› (Option.some.inj hs)
    · cases hs
  | answer id answer =>
    simp only [step] at h
    obtain ⟨c, hc, hs⟩ := Option.bind_eq_some_iff.mp h
    obtain ⟨-, rfl⟩ := find_mem hc
    split at hs
    · exact rule_of_finish hc ‹_› (Option.some.inj hs)
    · cases hs
  | cancel id =>
    simp only [step] at h
    obtain ⟨c, hc, hs⟩ := Option.bind_eq_some_iff.mp h
    obtain ⟨-, rfl⟩ := find_mem hc
    cases hs
    exact .cancel hc
  | pass milliseconds =>
    cases h
    exact .pass milliseconds

theorem step_keep {s : Client} {c : Call} {body : String} {d : PluginDirectory}
    (there : s.find? c.id = some c) (turn : c.phase = .fetching)
    (read : PluginDirectory.parse body = .ok d) :
    s.step (.answer c.id (.ok body)) =
      some (.ended (.ok (d.catalogFor c.host)), s.keep c (d.catalogFor c.host)) := by
  have hfinish : s.finish c (.ok body) =
      (.ended (.ok (d.catalogFor c.host)), s.keep c (d.catalogFor c.host)) := by
    simp only [finish, Except.bind, read]
  rw [step, there, Option.bind_eq_bind, Option.bind_some, turn, ← hfinish]

def onLine (line : String) (calls : List Call) : List Call :=
  calls.filter (·.line = line)

theorem mem_onLine {line : String} {calls : List Call} {c : Call} :
    c ∈ onLine line calls ↔ c ∈ calls ∧ c.line = line := by
  simp [onLine]

/-- Calls are told apart by their ids. On every line the first one has its turn, and the others are
queued. -/
structure Orderly (calls : List Call) : Prop where
  distinct : (calls.map (·.id)).Nodup
  turns : ∀ line c rest, onLine line calls = c :: rest →
    c.phase.isQueued = false ∧ ∀ d ∈ rest, d.phase.isQueued = true

theorem Orderly.eq_of_id {calls : List Call} (h : Orderly calls) {c d : Call} (hc : c ∈ calls)
    (hd : d ∈ calls) (he : c.id = d.id) : c = d :=
  List.inj_on_of_nodup_map h.distinct hc hd he

theorem Orderly.find {s : Client} (h : Orderly s.calls) {c : Call} (hc : c ∈ s.calls) :
    s.find? c.id = some c := by
  cases hf : s.find? c.id with
  | none => exact absurd rfl (find_none hf c hc)
  | some d =>
    obtain ⟨hd, hid⟩ := find_mem hf
    rw [h.eq_of_id hd hc hid]

/-- A call that has its turn is the first of its line. -/
theorem Orderly.first {calls : List Call} (h : Orderly calls) {c : Call} (hc : c ∈ calls)
    (hq : c.phase.isQueued = false) : ∃ rest, onLine c.line calls = c :: rest := by
  have hmem : c ∈ onLine c.line calls := mem_onLine.mpr ⟨hc, rfl⟩
  cases hl : onLine c.line calls with
  | nil =>
    rw [hl] at hmem
    cases hmem
  | cons d rest =>
    rw [hl] at hmem
    rcases List.mem_cons.mp hmem with rfl | hrest
    · exact ⟨rest, rfl⟩
    · have hd := (h.turns c.line d rest hl).2 c hrest
      rw [hq] at hd
      cases hd

/-- The others of its line are queued then. -/
theorem Orderly.behind {calls : List Call} (h : Orderly calls) {c d : Call} (hc : c ∈ calls)
    (hq : c.phase.isQueued = false) (hd : d ∈ calls) (hl : d.line = c.line) (hne : d ≠ c) :
    d.phase.isQueued = true := by
  obtain ⟨rest, hfirst⟩ := h.first hc hq
  have hmem : d ∈ onLine c.line calls := mem_onLine.mpr ⟨hd, hl⟩
  rw [hfirst] at hmem
  rcases List.mem_cons.mp hmem with rfl | hrest
  · exact absurd rfl hne
  · exact (h.turns c.line c rest hfirst).2 d hrest

/-- Giving one call its turn touches no other. -/
theorem mem_promote {line : String} {l : List Call} {c : Call} (h : c ∈ promote line l) :
    ∃ d ∈ l, c = d ∨ c = d.admit := by
  induction l with
  | nil => cases h
  | cons d r ih =>
    unfold promote at h
    split at h
    -- it is the first of its line, or that is further on
    · rcases List.mem_cons.mp h with rfl | h
      · exact ⟨d, List.mem_cons_self, .inr rfl⟩
      · exact ⟨c, List.mem_cons_of_mem _ h, .inl rfl⟩
    · rcases List.mem_cons.mp h with rfl | h
      · exact ⟨c, List.mem_cons_self, .inl rfl⟩
      · obtain ⟨e, he, hce⟩ := ih h
        exact ⟨e, List.mem_cons_of_mem _ he, hce⟩

theorem map_id_promote (line : String) (l : List Call) :
    (promote line l).map (·.id) = l.map (·.id) := by
  induction l with
  | nil => rfl
  | cons d r ih =>
    unfold promote
    split
    · simp
    · simp [ih]

def admitFirst : List Call → List Call
  | [] => []
  | c :: r => c.admit :: r

theorem onLine_promote_self (line : String) (l : List Call) :
    onLine line (promote line l) = admitFirst (onLine line l) := by
  induction l with
  | nil => rfl
  | cons d r ih =>
    unfold promote
    by_cases hd : d.line = line
    · simp [onLine, admitFirst, hd]
    · simpa [onLine, hd] using ih

theorem onLine_promote_of_ne {line other : String} (h : other ≠ line) (l : List Call) :
    onLine other (promote line l) = onLine other l := by
  induction l with
  | nil => rfl
  | cons d r ih =>
    unfold promote
    by_cases hd : d.line = line
    · simp [onLine, hd, Ne.symm h]
    · by_cases ho : d.line = other
      · simpa [onLine, hd, ho, h] using ih
      · simpa [onLine, hd, ho] using ih

/-- When a call ends, the others of its line close up, and the first of them gets its turn. -/
theorem onLine_leave_self (s : Client) (c : Call) :
    onLine c.line (s.leave c).calls =
      admitFirst ((onLine c.line s.calls).filter (·.id ≠ c.id)) := by
  rw [leave, onLine_promote_self, onLine, onLine, List.filter_filter, List.filter_filter]
  simp only [Bool.and_comm]

/-- Nothing changes on the other lines. -/
theorem onLine_leave_of_ne {s : Client} {c : Call} (h : Orderly s.calls) (hc : c ∈ s.calls)
    {line : String} (hl : line ≠ c.line) : onLine line (s.leave c).calls = onLine line s.calls := by
  rw [leave, onLine_promote_of_ne hl, onLine, List.filter_filter]
  refine List.filter_congr fun d hd => ?_
  by_cases hdl : d.line = line
  · have hne : d.id ≠ c.id := fun he => hl (by rw [← hdl, h.eq_of_id hd hc he])
    simp [hdl, hne]
  · simp [hdl]

theorem orderly_leave {s : Client} (h : Orderly s.calls) {c : Call} (hc : c ∈ s.calls) :
    Orderly (s.leave c).calls := by
  refine ⟨?_, fun line d rest hl => ?_⟩
  · rw [leave, map_id_promote]
    exact h.distinct.sublist (List.filter_sublist.map _)
  · by_cases hline : line = c.line
    · subst hline
      rw [onLine_leave_self] at hl
      cases hq : (onLine c.line s.calls).filter (·.id ≠ c.id) with
      | nil =>
        rw [hq] at hl
        cases hl
      | cons e tail =>
        rw [hq] at hl
        cases hl
        refine ⟨e.admit_not_queued, fun f hf => ?_⟩
        -- whoever ended, those behind the new first call stood behind another one before
        have hsub : (e :: rest).Sublist (onLine c.line s.calls) := hq ▸ List.filter_sublist
        cases hold : onLine c.line s.calls with
        | nil =>
          rw [hold] at hsub
          cases hsub
        | cons g others =>
          rw [hold] at hsub
          have hrest : rest.Sublist others := List.Sublist.of_cons_cons hsub
          exact (h.turns c.line g others hold).2 f (hrest.mem hf)
    · rw [onLine_leave_of_ne h hc hline] at hl
      exact h.turns line d rest hl

/-- A call that joins stands last. It is queued exactly when its line is not free. -/
theorem calls_join (s : Client) (id : Nat) (host : HostVersion) (forced : Bool) :
    ∃ phase, (s.join id host forced).calls = s.calls ++ [⟨id, host, forced, phase⟩] ∧
      (phase.isQueued = true ↔ onLine host.line s.calls ≠ []) ∧
      phase.seen? = some (s.cache.count host.line) := by
  have hany : s.calls.any (·.line = host.line) = true ↔ onLine host.line s.calls ≠ [] := by
    simp [onLine]
  cases ha : s.calls.any (·.line = host.line) with
  | true =>
    refine ⟨.queued (s.cache.count host.line), ?_, ?_, rfl⟩
    · simp only [join, ha, if_true]
    · exact ⟨fun _ => hany.mp ha, fun _ => rfl⟩
  | false =>
    refine ⟨.admitted (s.cache.count host.line), ?_, ?_, rfl⟩
    · simp only [join, ha, Bool.false_eq_true, if_false]
    · refine ⟨fun hq => (by cases hq), fun hne => ?_⟩
      rw [hany.mpr hne] at ha
      cases ha

theorem orderly_join {s : Client} (h : Orderly s.calls) {id : Nat} (fresh : s.find? id = none)
    (host : HostVersion) (forced : Bool) : Orderly (s.join id host forced).calls := by
  obtain ⟨phase, hcalls, hphase, -⟩ := calls_join s id host forced
  rw [hcalls]
  refine ⟨?_, fun line d rest hl => ?_⟩
  -- its id is new
  · rw [List.map_append, List.nodup_append]
    refine ⟨h.distinct, List.nodup_singleton _, fun a ha b hb => ?_⟩
    obtain ⟨c, hc, rfl⟩ := List.mem_map.mp ha
    rw [List.map_singleton, List.mem_singleton] at hb
    exact hb ▸ find_none fresh c hc
  -- it has its turn if it is alone on its line, and stands behind the others otherwise
  · by_cases hline : host.line = line
    · subst hline
      have hnew : onLine host.line (s.calls ++ [⟨id, host, forced, phase⟩]) =
          onLine host.line s.calls ++ [⟨id, host, forced, phase⟩] := by
        simp [onLine, Call.line]
      rw [hnew] at hl
      cases hold : onLine host.line s.calls with
      | nil =>
        rw [hold] at hl
        cases hl
        refine ⟨?_, fun d hd => by cases hd⟩
        exact eq_false_of_ne_true fun hq => hphase.mp hq hold
      | cons e tail =>
        rw [hold] at hl
        cases hl
        obtain ⟨hfirst, htail⟩ := h.turns _ _ _ hold
        refine ⟨hfirst, fun f hf => ?_⟩
        rcases List.mem_append.mp hf with hf | hf
        · exact htail f hf
        · rw [List.mem_singleton.mp hf]
          exact hphase.mpr (by simp [hold])
    · have hsame : onLine line (s.calls ++ [⟨id, host, forced, phase⟩]) = onLine line s.calls := by
        simp [onLine, Call.line, hline]
      exact h.turns line d rest (hsame ▸ hl)

def inPhase (id : Nat) (p : Phase) (c : Call) : Call :=
  if c.id = id then { c with phase := p } else c

theorem calls_setPhase (s : Client) (id : Nat) (p : Phase) :
    (s.setPhase id p).calls = s.calls.map (inPhase id p) :=
  rfl

theorem onLine_setPhase (s : Client) (id : Nat) (p : Phase) (line : String) :
    onLine line (s.setPhase id p).calls = (onLine line s.calls).map (inPhase id p) := by
  rw [calls_setPhase, onLine, List.filter_map]
  congr 1
  refine List.filter_congr fun c _ => ?_
  simp only [Function.comp, inPhase]
  split <;> rfl

theorem orderly_setPhase {s : Client} (h : Orderly s.calls) {c : Call} (hc : c ∈ s.calls)
    (hq : c.phase.isQueued = false) {p : Phase} (hp : p.isQueued = false) :
    Orderly (s.setPhase c.id p).calls := by
  refine ⟨?_, fun line d rest hl => ?_⟩
  · have hids : (s.setPhase c.id p).calls.map (·.id) = s.calls.map (·.id) := by
      rw [calls_setPhase, List.map_map]
      refine List.map_congr_left fun d _ => ?_
      simp only [Function.comp, inPhase]
      split <;> rfl
    rw [hids]
    exact h.distinct
  · rw [onLine_setPhase] at hl
    cases hold : onLine line s.calls with
    | nil =>
      rw [hold] at hl
      cases hl
    | cons e tail =>
      rw [hold] at hl
      cases hl
      obtain ⟨hfirst, htail⟩ := h.turns line e tail hold
      refine ⟨?_, fun f hf => ?_⟩
      · unfold inPhase
        split
        · exact hp
        · exact hfirst
      · obtain ⟨g, hg, rfl⟩ := List.mem_map.mp hf
        -- the call itself stands first, so none of the queued ones is touched
        have hne : g.id ≠ c.id := by
          intro he
          have hgm : g ∈ s.calls :=
            (mem_onLine.mp (hold ▸ List.mem_cons_of_mem _ hg : g ∈ onLine line s.calls)).1
          have hgq := htail g hg
          rw [h.eq_of_id hgm hc he, hq] at hgq
          cases hgq
        rw [inPhase, if_neg hne]
        exact htail g hg

/-- Every step leaves the calls in order. -/
theorem orderly_step {s s' : Client} {e : Event} {o : Outcome} (h : Orderly s.calls)
    (hr : Rule s e o s') : Orderly s'.calls := by
  cases hr with
  | refuse => exact h
  | hit => exact h
  | join fresh read miss => exact orderly_join h fresh _ _
  | share there turn newer => exact orderly_leave h (find_mem there).1
  | stop there turn none_newer nowhere => exact orderly_leave h (find_mem there).1
  | depart there turn none_newer somewhere =>
    exact orderly_setPhase h (find_mem there).1 (by rw [turn]; rfl) rfl
  | fail there turn useless => exact orderly_leave h (find_mem there).1
  | keep there turn read => exact orderly_leave h (find_mem there).1
  | cancel there => exact orderly_leave h (find_mem there).1
  | pass milliseconds => exact h

/-- Nothing but its phase changes of a call, and the phase forgets what the call has seen at most. -/
structure Call.GoesOn (c c' : Call) : Prop where
  id : c'.id = c.id
  host : c'.host = c.host
  forced : c'.forced = c.forced
  seen : ∀ n, c'.phase.seen? = some n → c.phase.seen? = some n

theorem Call.GoesOn.refl (c : Call) : Call.GoesOn c c :=
  ⟨rfl, rfl, rfl, fun _ h => h⟩

theorem goesOn_leave {s : Client} {c c' : Call} (h : c' ∈ (s.leave c).calls) :
    ∃ d ∈ s.calls, d.id ≠ c.id ∧ Call.GoesOn d c' ∧ c'.phase.seen? = d.phase.seen? := by
  obtain ⟨d, hd, hcd⟩ := mem_promote h
  obtain ⟨hd, hne⟩ := List.mem_filter.mp hd
  refine ⟨d, hd, by simpa using hne, ?_⟩
  rcases hcd with rfl | rfl
  · exact ⟨.refl c', rfl⟩
  · have hgo : Call.GoesOn d d.admit :=
      ⟨d.admit_id, d.admit_host, d.admit_forced, fun n hn => by rwa [d.admit_seen] at hn⟩
    exact ⟨hgo, d.admit_seen⟩

/-- A call after a step was there before it, or it has just joined. What it has seen is forgotten
only in a step of its own. -/
theorem call_origin {s s' : Client} {e : Event} {o : Outcome} (hr : Rule s e o s') {c' : Call}
    (hc : c' ∈ s'.calls) :
    (∃ c ∈ s.calls, Call.GoesOn c c' ∧
      (e.call? ≠ some c.id → c'.phase.seen? = c.phase.seen?)) ∨
      ∃ given, e = .enter c'.id given c'.forced ∧ HostVersion.parse given = .ok c'.host ∧
        o = .waits ∧ c'.phase.seen? = some (s.cache.count c'.line) := by
  -- when another call ends, what this one has seen stays as it was even if it gets its turn
  have hleft {d : Call} (h : c' ∈ (s.leave d).calls) :
      ∃ c ∈ s.calls, Call.GoesOn c c' ∧
        (e.call? ≠ some c.id → c'.phase.seen? = c.phase.seen?) := by
    obtain ⟨c, hc, -, hgo, hseen⟩ := goesOn_leave h
    exact ⟨c, hc, hgo, fun _ => hseen⟩
  cases hr with
  | refuse => exact .inl ⟨c', hc, .refl c', fun _ => rfl⟩
  | hit => exact .inl ⟨c', hc, .refl c', fun _ => rfl⟩
  | @join id given host forced fresh read miss =>
    obtain ⟨phase, hcalls, -, hseen⟩ := calls_join s id host forced
    rw [hcalls] at hc
    rcases List.mem_append.mp hc with hc | hc
    · exact .inl ⟨c', hc, .refl c', fun _ => rfl⟩
    · cases List.mem_singleton.mp hc
      exact .inr ⟨given, rfl, read, rfl, hseen⟩
  | share => exact .inl (hleft hc)
  | stop => exact .inl (hleft hc)
  | @depart c seen there turn none_newer somewhere =>
    obtain ⟨d, hd, rfl⟩ := List.mem_map.mp hc
    refine .inl ⟨d, hd, ?_⟩
    -- only the call that departs forgets what it has seen
    by_cases hid : d.id = c.id
    · rw [if_pos hid]
      exact ⟨⟨rfl, rfl, rfl, fun n hn => by cases hn⟩, fun hne => absurd (hid ▸ rfl) hne⟩
    · rw [if_neg hid]
      exact ⟨.refl d, fun _ => rfl⟩
  | fail => exact .inl (hleft hc)
  | keep => exact .inl (hleft hc)
  | cancel => exact .inl (hleft hc)
  | pass => exact .inl ⟨c', hc, .refl c', fun _ => rfl⟩

end Client

end PluginResolution.Catalog
