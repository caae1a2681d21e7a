import Mathlib.Algebra.Ring.Nat
import Mathlib.Data.List.DropRight
import Mathlib.Data.List.Induction
import PluginResolution.Catalog.Cache

namespace PluginResolution.Catalog.Cache

inductive Event where
  | stored (catalog : Catalog)
  | passed (milliseconds : Nat)
  deriving DecidableEq, Repr

namespace Event

def catalog? (line : String) : Event → Option Catalog
  | stored catalog => if catalog.line = line then some catalog else none
  | passed _ => none

def duration : Event → Nat
  | stored _ => 0
  | passed milliseconds => milliseconds

def isAbout (line : String) : Event → Bool
  | stored catalog => catalog.line = line
  | passed _ => true

end Event

/-- The catalogs that were stored for the line, the last one at the end. -/
def storedFor (line : String) (events : List Event) : List Catalog :=
  events.filterMap (·.catalog? line)

def age (line : String) (events : List Event) : Nat :=
  ((events.rtakeWhile fun e => (e.catalog? line).isNone).map (·.duration)).sum

structure Timed where
  cache : Cache
  now : Nat
  deriving DecidableEq, Repr

def Timed.step (s : Timed) : Event → Timed
  | .stored catalog => { s with cache := s.cache.store s.now catalog }
  | .passed milliseconds => { s with now := s.now + milliseconds }

/-- A cache that was made at that time, and what has happened to it since. -/
def after (ttl made : Nat) (events : List Event) : Timed :=
  events.foldl Timed.step ⟨{ ttl }, made⟩

section History

variable {line : String} {e : Event} (events : List Event)

theorem storedFor_concat_none (h : e.catalog? line = none) :
    storedFor line (events ++ [e]) = storedFor line events := by
  rw [storedFor, storedFor, List.filterMap_append, List.filterMap_cons_none h]
  exact List.append_nil _

theorem storedFor_concat_some {catalog : Catalog} (h : e.catalog? line = some catalog) :
    storedFor line (events ++ [e]) = storedFor line events ++ [catalog] := by
  rw [storedFor, storedFor, List.filterMap_append, List.filterMap_cons_some h]
  rfl

/-- Whatever is no catalog for the line makes the one it has older. -/
theorem age_concat_none (h : e.catalog? line = none) :
    age line (events ++ [e]) = age line events + e.duration := by
  rw [age, List.rtakeWhile_concat_pos _ _ _ (by simp [h]), List.map_append, List.sum_append]
  simp [age]

theorem age_concat_some {catalog : Catalog} (h : e.catalog? line = some catalog) :
    age line (events ++ [e]) = 0 := by
  rw [age, List.rtakeWhile_concat_neg _ _ _ (by simp [h])]
  rfl

/-- What is stored for other lines is forgotten without loss. -/
theorem storedFor_filter :
    storedFor line (events.filter (·.isAbout line)) = storedFor line events := by
  rw [storedFor, storedFor, List.filterMap_filter]
  congr 1
  funext e
  cases e with
  | stored catalog => by_cases h : catalog.line = line <;> simp [Event.isAbout, Event.catalog?, h]
  | passed => rfl

theorem age_filter : age line (events.filter (·.isAbout line)) = age line events := by
  -- on the events, the last of which is dropped, begins a new age or adds to it
  induction events using List.reverseRecOn with
  | nil => rfl
  | append_singleton before e ih =>
    rw [List.filter_append]
    cases ha : e.isAbout line with
    | false =>
      cases e with
      | passed => cases ha
      | stored catalog =>
        have hnone : (Event.stored catalog).catalog? line = none := by
          simpa [Event.isAbout, Event.catalog?] using ha
        rw [List.filter_cons_of_neg (by simp [ha]), List.filter_nil, List.append_nil, ih,
          age_concat_none before hnone]
        rfl
    | true =>
      rw [List.filter_cons_of_pos ha, List.filter_nil]
      cases hc : e.catalog? line with
      | none => rw [age_concat_none _ hc, age_concat_none _ hc, ih]
      | some catalog => rw [age_concat_some _ hc, age_concat_some _ hc]

end History

structure Remembers (ttl : Nat) (events : List Event) (s : Timed) : Prop where
  ttl : s.cache.ttl = ttl
  kept : ∀ line, s.cache.find? line = (storedFor line events).getLast?.map fun catalog =>
    ⟨catalog, s.now - age line events, (storedFor line events).length⟩
  clock : ∀ line, age line events ≤ s.now

section Run

variable {ttl : Nat} {events : List Event} {s : Timed} {line : String}

theorem Remembers.count (h : Remembers ttl events s) :
    s.cache.count line = (storedFor line events).length := by
  rw [Cache.count, h.kept]
  cases hs : (storedFor line events).getLast? with
  | none => simp [List.getLast?_eq_none_iff.mp hs]
  | some catalog => rfl

theorem Remembers.newer (h : Remembers ttl events s) (n : Nat) :
    s.cache.newer? line n =
      if n < (storedFor line events).length then (storedFor line events).getLast? else none := by
  rw [newer?, h.kept]
  cases hs : (storedFor line events).getLast? with
  | none => simp
  | some catalog =>
    by_cases hn : n < (storedFor line events).length
    · simp [hn]
    · simp [hn, Nat.not_lt.mp hn]

theorem Remembers.fresh (h : Remembers ttl events s) :
    s.cache.fresh? s.now line =
      if age line events < ttl then (storedFor line events).getLast? else none := by
  have hage : s.now - (s.now - age line events) = age line events :=
    Nat.sub_sub_self (h.clock line)
  rw [fresh?, h.kept, h.ttl]
  cases hs : (storedFor line events).getLast? with
  | none => simp
  | some catalog =>
    by_cases ha : age line events < ttl
    · simp [hage, ha]
    · simp [hage, ha, Nat.not_lt.mp ha]

theorem Remembers.step (h : Remembers ttl events s) (e : Event) :
    Remembers ttl (events ++ [e]) (s.step e) := by
  cases e with
  | passed milliseconds =>
    have hage (line : String) : age line (events ++ [.passed milliseconds]) =
        age line events + milliseconds := age_concat_none events rfl
    refine ⟨h.ttl, fun line => ?_, fun line => ?_⟩
    · -- the clock has gone on by what the age has grown
      rw [hage, storedFor_concat_none events rfl]
      simp only [Timed.step, Nat.add_sub_add_right]
      exact h.kept line
    · rw [hage]
      exact Nat.add_le_add_right (h.clock line) milliseconds
  | stored catalog =>
    refine ⟨h.ttl, fun line => ?_, fun line => ?_⟩
    · by_cases hline : line = catalog.line
      · subst hline
        have hsome : (Event.stored catalog).catalog? catalog.line = some catalog := if_pos rfl
        rw [age_concat_some events hsome, storedFor_concat_some events hsome,
          List.getLast?_concat, Timed.step, find?_store_self, h.count]
        simp
      · have hnone : (Event.stored catalog).catalog? line = none := if_neg (Ne.symm hline)
        rw [age_concat_none events hnone, storedFor_concat_none events hnone, Timed.step,
          find?_store_of_ne _ _ hline]
        exact h.kept line
    · cases hc : (Event.stored catalog).catalog? line with
      | none =>
        rw [age_concat_none events hc]
        exact h.clock line
      | some =>
        rw [age_concat_some events hc]
        exact Nat.zero_le _

theorem remembers_after (ttl made : Nat) (events : List Event) :
    Remembers ttl events (after ttl made events) := by
  induction events using List.reverseRecOn with
  | nil => exact ⟨rfl, fun _ => rfl, fun _ => Nat.zero_le made⟩
  | append_singleton before e ih =>
    rw [after, List.foldl_append]
    exact ih.step e

end Run

/-- After any stores and any passage of time: the count of a line is the number of its stores. The
catalog that was stored last is newer than all smaller numbers, and it is fresh for less than the
time to live, so never if that is zero. Nothing of this would be different if nothing had been
stored for other lines. -/
theorem cache_follows_history (ttl made : Nat) (events : List Event) (line : String) :
    let s := after ttl made events
    let stores := storedFor line events
    s.cache.count line = stores.length ∧
    (∀ n, s.cache.newer? line n = if n < stores.length then stores.getLast? else none) ∧
    s.cache.fresh? s.now line = (if age line events < ttl then stores.getLast? else none) ∧
    (let s := after 0 made events
     s.cache.fresh? s.now line = none) ∧
    (let alone := after ttl made (events.filter (·.isAbout line))
     s.cache.count line = alone.cache.count line ∧
      (∀ n, s.cache.newer? line n = alone.cache.newer? line n) ∧
      s.cache.fresh? s.now line = alone.cache.fresh? alone.now line) := by
  intro s stores
  have h : Remembers ttl events s := remembers_after ttl made events
  refine ⟨h.count, h.newer, h.fresh, ?_, ?_⟩
  · intro s
    have hzero : Remembers 0 events s := remembers_after 0 made events
    rw [hzero.fresh, if_neg (Nat.not_lt_zero _)]
  · intro alone
    have halone : Remembers ttl (events.filter (·.isAbout line)) alone :=
      remembers_after ttl made _
    refine ⟨?_, fun n => ?_, ?_⟩
    · rw [h.count, halone.count, storedFor_filter]
    · rw [h.newer, halone.newer, storedFor_filter]
    · rw [h.fresh, halone.fresh, storedFor_filter, age_filter]

/-- A copy is not fresh for as long as the time to live, but one millisecond less. -/
example :
    let history : List Event := [.stored ⟨"0.24", []⟩, .passed 9, .stored ⟨"0.22", []⟩]
    let s := after 10 0 history
    s.cache.fresh? s.now "0.24" = some ⟨"0.24", []⟩ ∧ s.cache.fresh? (s.now + 1) "0.24" = none := by
  decide

end PluginResolution.Catalog.Cache
