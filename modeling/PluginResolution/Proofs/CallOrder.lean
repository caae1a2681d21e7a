import Mathlib.Algebra.BigOperators.Group.List.Basic
import Mathlib.Algebra.Ring.Nat
import PluginResolution.Proofs.ConcurrentLedger

namespace PluginResolution

namespace Storage

variable (s : Storage)

def treeAfter (ops : List Ledger.Operation) (t : FileTree) : FileTree :=
  ops.foldl (fun t op => (s.perform op t).2) t

theorem treeAfter_concat (ops : List Ledger.Operation) (op : Ledger.Operation) (t : FileTree) :
    s.treeAfter (ops ++ [op]) t = (s.perform op (s.treeAfter ops t)).2 := by
  rw [treeAfter, treeAfter, List.foldl_concat]

theorem performAll_concat (ops : List Ledger.Operation) (op : Ledger.Operation) (t : FileTree) :
    s.performAll (ops ++ [op]) t =
      s.performAll ops t ++ [(s.perform op (s.treeAfter ops t)).1] := by
  induction ops generalizing t with
  | nil => rfl
  | cons first ops ih =>
    show _ :: s.performAll (ops ++ [op]) _ = _
    rw [ih]
    rfl

end Storage

namespace Ledger.Contents

def afterAll (m : Contents) (ops : List Operation) : Contents :=
  ops.foldl after m

theorem afterAll_concat (m : Contents) (ops : List Operation) (op : Operation) :
    m.afterAll (ops ++ [op]) = (m.afterAll ops).after op :=
  List.foldl_concat ..

end Ledger.Contents

namespace Ledger.Shared

variable {s : Storage} {path : String} {op : Operation} {m m₀ : Contents} {t t₀ u : FileTree}
  {p : Phase} {z z' : Shared} {i : Nat} {c : Call} {a : Answer}

structure Entry where
  number : Nat
  operation : Operation
  answer : Answer

/-- The calls that have their answers, in an order in which none stands before one that was over
when it began. -/
structure Logged (z : Shared) (log : List Entry) : Prop where
  once : (log.map Entry.number).Nodup
  answered : ∀ e, e ∈ log ↔ ∃ c, z.calls[e.number]? = some c ∧ c.operation = e.operation ∧
    c.phase.answer? = some e.answer
  timely : log.Pairwise fun e f => ∀ c, z.calls[e.number]? = some c → f.number ∉ c.past
  finished : ∀ (i : Nat) (c : Call), z.calls[i]? = some c → ∀ j ∈ c.past, ∃ d a,
    z.calls[j]? = some d ∧ d.phase = .ended a

namespace Logged

variable {log : List Entry}

theorem begin (h : Logged z log) (op : Operation) : Logged (z.begin op) log where
  once := h.once
  answered := by
    intro e
    rw [h.answered]
    constructor
    · rintro ⟨c, hc, hop, ha⟩
      exact ⟨c, get_begin_of_some hc, hop, ha⟩
    · rintro ⟨c, hc, hop, ha⟩
      rcases get_begin hc with hc | ⟨-, rfl⟩
      · exact ⟨c, hc, hop, ha⟩
      · cases ha
  timely := by
    refine h.timely.imp_of_mem fun he _ hef c hc => ?_
    obtain ⟨d, hd, -⟩ := (h.answered _).mp he
    rw [get_begin_of_some hd] at hc
    cases hc
    exact hef _ hd
  finished := by
    intro i c hc j hj
    rcases get_begin hc with hc | ⟨-, rfl⟩
    · obtain ⟨d, a, hd, hp⟩ := h.finished i c hc j hj
      exact ⟨d, a, get_begin_of_some hd, hp⟩
    · obtain ⟨d, a, hd, hp⟩ := mem_finished hj
      exact ⟨d, a, get_begin_of_some hd, hp⟩

/-- A call that is not over is in no past. -/
theorem not_past (h : Logged z log) (hc : z.calls[i]? = some c) (notOver : c.phase.isOver = false)
    {j : Nat} {d : Call} (hd : z.calls[j]? = some d) : i ∉ d.past := by
  intro hpast
  obtain ⟨e, a, he, hp⟩ := h.finished j d hd i hpast
  rw [hc] at he
  cases he
  rw [hp] at notOver
  cases notOver

theorem past_eq (hc : z.calls[i]? = some c) {j : Nat} {d : Call}
    (hd : (z.move i c p u).calls[j]? = some d) :
    ∃ d', z.calls[j]? = some d' ∧ d'.past = d.past := by
  rw [get_move hc] at hd
  split at hd
  · rename_i hj
    cases hd
    exact ⟨c, hj ▸ hc, rfl⟩
  · exact ⟨d, hd, rfl⟩

theorem finished_move (h : Logged z log) (hc : z.calls[i]? = some c)
    (notOver : c.phase.isOver = false) (j : Nat) (d : Call)
    (hd : (z.move i c p u).calls[j]? = some d) (k : Nat) (hk : k ∈ d.past) :
    ∃ d a, (z.move i c p u).calls[k]? = some d ∧ d.phase = .ended a := by
  obtain ⟨d', hd', hpast⟩ := past_eq hc hd
  obtain ⟨e, a, he, hp⟩ := h.finished j d' hd' k (hpast ▸ hk)
  have hki : k ≠ i := by
    rintro rfl
    exact h.not_past hc notOver hd' (hpast ▸ hk)
  exact ⟨e, a, by rw [get_move hc, if_neg hki, he], hp⟩

theorem timely_move (h : Logged z log) (hc : z.calls[i]? = some c) : log.Pairwise fun e f =>
    ∀ d, (z.move i c p u).calls[e.number]? = some d → f.number ∉ d.past := by
  refine h.timely.imp fun hef d hd => ?_
  obtain ⟨d', hd', hpast⟩ := past_eq hc hd
  exact hpast ▸ hef d' hd'

/-- A step that gives no answer does not change the order. -/
theorem quiet (h : Logged z log) (hc : z.calls[i]? = some c) (notOver : c.phase.isOver = false)
    (same : p.answer? = c.phase.answer?) : Logged (z.move i c p u) log where
  once := h.once
  answered := by
    intro e
    rw [h.answered, get_move hc]
    by_cases he : e.number = i
    · rw [if_pos he, he, hc]
      simp [same]
    · rw [if_neg he]
  timely := h.timely_move hc
  finished := h.finished_move hc notOver

/-- A call that gets its answer has its place behind the others. -/
theorem answer (h : Logged z log) (hc : z.calls[i]? = some c) (pending : c.phase.answer? = none)
    (given : p.answer? = some a) : Logged (z.move i c p u) (log ++ [⟨i, c.operation, a⟩]) := by
  have notOver := Phase.not_over_of_pending pending
  have hnew : ∀ e ∈ log, e.number ≠ i := by
    rintro e he rfl
    obtain ⟨d, hd, -, ha⟩ := (h.answered e).mp he
    rw [hc] at hd
    cases hd
    rw [pending] at ha
    cases ha
  refine ⟨?_, fun e => ?_, ?_, h.finished_move hc notOver⟩
  -- its number is new
  · rw [List.map_append, List.nodup_append]
    refine ⟨h.once, List.nodup_singleton _, ?_⟩
    intro n hn k hk
    obtain ⟨e, he, rfl⟩ := List.mem_map.mp hn
    rw [List.mem_singleton.mp hk]
    exact hnew e he
  -- no other call has got an answer
  · rw [List.mem_append, List.mem_singleton, h.answered, get_move hc]
    by_cases he : e.number = i
    · rw [if_pos he, he, hc]
      obtain ⟨n, o, b⟩ := e
      cases he
      simp [pending, given, eq_comm]
    · rw [if_neg he]
      refine or_iff_left fun hsame => ?_
      rw [hsame] at he
      exact he rfl
  -- and no call before it can have begun when it was over
  · rw [List.pairwise_append]
    refine ⟨h.timely_move hc, List.pairwise_singleton _ _, ?_⟩
    intro e he f hf d hd
    rw [List.mem_singleton.mp hf]
    obtain ⟨d', hd', hpast⟩ := past_eq hc hd
    exact hpast ▸ h.not_past hc notOver hd'

end Logged

/-- What a step of a call is. -/
theorem of_goesOn (h : z.step path (.goesOn i) = some z') : ∃ c p u, z.calls[i]? = some c ∧
    c.phase.step path c.operation z.tree = some (p, u) ∧
    (p.isLocking = true → c.phase.isLocking = true ∨ z.isLocked = false) ∧ z' = z.move i c p u := by
  obtain ⟨c, hc, h⟩ := Option.bind_eq_some_iff.mp h
  obtain ⟨⟨p, u⟩, hp, h⟩ := Option.bind_eq_some_iff.mp h
  dsimp only at h
  split at h
  · cases h
  · rename_i hwaits
    cases h
    refine ⟨c, p, u, hc, hp, fun hl => ?_, rfl⟩
    rw [hl] at hwaits
    cases hc' : c.phase.isLocking with
    | true => exact .inl rfl
    | false => exact .inr (by simpa [hc'] using hwaits)

/-- The calls that have their answers have them in one order, and the files are those after it, as
far as no change is on its way. -/
structure Ordered (s : Storage) (t₀ : FileTree) (m₀ : Contents) (z : Shared) (log : List Entry) :
    Prop where
  logged : Logged z log
  sequential : log.map Entry.answer = s.performAll (log.map Entry.operation) t₀
  serves : File.Serves s.ledger (m₀.afterAll (log.map Entry.operation))
    (s.treeAfter (log.map Entry.operation) t₀)
  held : Held s.ledger (m₀.afterAll (log.map Entry.operation))
    (s.treeAfter (log.map Entry.operation) t₀) z

namespace Ordered

variable {log : List Entry}

theorem quiet (h : Ordered s t₀ m₀ z log) (hc : z.calls[i]? = some c)
    (notOver : c.phase.isOver = false) (same : p.answer? = c.phase.answer?)
    (held : Held s.ledger (m₀.afterAll (log.map Entry.operation))
      (s.treeAfter (log.map Entry.operation) t₀) (z.move i c p u)) :
    Ordered s t₀ m₀ (z.move i c p u) log :=
  ⟨h.logged.quiet hc notOver same, h.sequential, h.serves, held⟩

/-- A call gets the answer that the operation would get now. -/
theorem answer (h : Ordered s t₀ m₀ z log) (hc : z.calls[i]? = some c)
    (pending : c.phase.answer? = none) (given : p.answer? = some a)
    (performed : s.perform c.operation (s.treeAfter (log.map Entry.operation) t₀) = (a, t))
    (after : (m₀.afterAll (log.map Entry.operation)).after c.operation = m)
    (serves : File.Serves s.ledger m t) (held : Held s.ledger m t (z.move i c p u)) :
    Ordered s t₀ m₀ (z.move i c p u) (log ++ [⟨i, c.operation, a⟩]) := by
  have hops : (log ++ [Entry.mk i c.operation a]).map Entry.operation =
      log.map Entry.operation ++ [c.operation] := List.map_append
  have htree : s.treeAfter (log.map Entry.operation ++ [c.operation]) t₀ = t := by
    rw [Storage.treeAfter_concat, performed]
  have hmap : m₀.afterAll (log.map Entry.operation ++ [c.operation]) = m := by
    rw [Contents.afterAll_concat, after]
  refine ⟨h.logged.answer hc pending given, ?_, ?_, ?_⟩
  · rw [hops, Storage.performAll_concat, performed, ← h.sequential, List.map_append]
    rfl
  · rw [hops, htree, hmap]
    exact serves
  · rw [hops, htree, hmap]
    exact held

/-- What one step preserves. -/
theorem goes (json : s.backend = .json) (h : Ordered s t₀ m₀ z log) (hc : z.calls[i]? = some c)
    (goes : Phase.Goes s.ledger c.operation (m₀.afterAll (log.map Entry.operation))
      (s.treeAfter (log.map Entry.operation) t₀) c.phase z.tree p u)
    (lock : p.isLocking = true → c.phase.isLocking = true ∨ z.isLocked = false) :
    ∃ log, Ordered s t₀ m₀ (z.move i c p u) log := by
  -- who has the lock is the only one
  have hsingle (hl : c.phase.isLocking = true) (j : Nat) (d : Call) (hd : z.calls[j]? = some d)
      (hld : d.phase.isLocking = true) : j = i := h.held.single j i d c hd hc hld hl
  obtain ⟨tree, calls⟩ := z
  obtain ⟨op, past, phase⟩ := c
  dsimp only at hc goes lock hsingle
  cases goes with
  | look refused =>
    -- the file is read as the ledger of the order, whoever has the lock
    obtain ⟨hperform, hafter⟩ := Storage.perform_of_refused json h.serves.stored refused
    exact ⟨_, h.answer hc rfl rfl hperform hafter h.serves (h.held.keep hc rfl rfl)⟩
  | lock change =>
    have hfree := (lock rfl).resolve_left nofun
    have htree := h.held.free hfree
    refine ⟨_, h.quiet hc rfl rfl (held_of_only hc (fun j d hd hl => ?_) (fun _ => ?_) nofun)⟩
    · rw [isLocked_eq_false.mp hfree j d hd] at hl
      cases hl
    · dsimp only at htree
      rw [htree]
      exact .locked change
  | refuse refused =>
    obtain ⟨hperform, hafter⟩ := Storage.perform_of_refused json h.serves.stored refused
    exact ⟨_, h.answer hc rfl rfl hperform hafter h.serves
      (held_of_only hc (hsingle rfl) (fun _ => .leaving _) nofun)⟩
  | read granted =>
    exact ⟨_, h.quiet hc rfl rfl
      (held_of_only hc (hsingle rfl) (fun _ => .surrounding granted) nofun)⟩
  | surround granted around =>
    exact ⟨_, h.quiet hc rfl rfl
      (held_of_only hc (hsingle rfl) (fun _ => .drafting granted around) nofun)⟩
  | draft granted replaces =>
    exact ⟨_, h.quiet hc rfl rfl
      (held_of_only hc (hsingle rfl) (fun _ => .replacing granted replaces) nofun)⟩
  | replace granted replaces =>
    -- here the change takes its place in the order, and the file is another one from now on
    have hperform := Storage.perform_of_granted json h.serves.stored granted replaces.write
    exact ⟨_, h.answer hc rfl rfl hperform rfl replaces.serves
      (held_of_only hc (hsingle rfl) (fun _ => .leaving _) nofun)⟩
  | leave a =>
    exact ⟨_, h.quiet hc rfl rfl (held_of_only hc (hsingle rfl) nofun fun _ => rfl)⟩
  | finish a =>
    exact ⟨_, h.quiet hc rfl rfl (h.held.keep hc rfl rfl)⟩

theorem step (json : s.backend = .json) (h : Ordered s t₀ m₀ z log) {e : Event}
    (hstep : z.step s.ledger e = some z') : ∃ log, Ordered s t₀ m₀ z' log := by
  cases e with
  | begins op =>
    cases hstep
    exact ⟨log, h.logged.begin op, h.sequential, h.serves, h.held.begin op⟩
  | goesOn i =>
    obtain ⟨c, p, u, hc, hp, lock, rfl⟩ := of_goesOn hstep
    have hread := h.held.read h.serves
    exact h.goes json hc (Phase.goes_of_step h.serves hread (h.held.stage i c hc) hp) lock

end Ordered

theorem Ordered.start (serves : File.Serves s.ledger m₀ t₀) : Ordered s t₀ m₀ ⟨t₀, []⟩ [] where
  logged := {
    once := List.nodup_nil
    answered := fun e => by simp
    timely := List.Pairwise.nil
    finished := fun i c hc => by cases List.getElem?_nil.symm.trans hc }
  sequential := rfl
  serves := serves
  held := {
    stage := fun i c hc => by cases List.getElem?_nil.symm.trans hc
    free := fun _ => rfl
    single := fun i j c d hc => by cases List.getElem?_nil.symm.trans hc }

/-- So after any run. -/
theorem Run.ordered (json : s.backend = .json) (serves : File.Serves s.ledger m₀ t₀)
    (run : Run s.ledger t₀ z) : ∃ log, Ordered s t₀ m₀ z log := by
  induction run with
  | start => exact ⟨[], .start serves⟩
  | next before step ih =>
    obtain ⟨log, h⟩ := ih
    exact h.step json step

theorem Run.nexts {es : List Event} (run : Run path t₀ z)
    (h : es.foldlM (Shared.step path) z = some z') : Run path t₀ z' := by
  induction es generalizing z with
  | nil =>
    cases h
    exact run
  | cons e es ih =>
    rw [List.foldlM_cons] at h
    obtain ⟨w, hstep, h⟩ := Option.bind_eq_some_iff.mp h
    exact ih (run.next hstep) h

/-! ## The calls end -/

def left (z : Shared) : Nat :=
  (z.calls.map (·.phase.left)).sum

theorem left_move_lt (hc : z.calls[i]? = some c) (hlt : p.left < c.phase.left) :
    (z.move i c p u).left < z.left := by
  obtain ⟨hi, hget⟩ := List.getElem?_eq_some_iff.mp hc
  have hself : z.calls.set i c = z.calls := by rw [← hget, List.set_getElem_self]
  have hsum (d : Call) : ((z.calls.set i d).map (·.phase.left)).sum =
      ((z.calls.map (·.phase.left)).take i).sum + d.phase.left +
        ((z.calls.map (·.phase.left)).drop (i + 1)).sum := by
    rw [List.map_set, List.sum_set, if_pos (by simpa using hi)]
  calc (z.move i c p u).left
    _ = _ := hsum { c with phase := p }
    _ < _ := Nat.add_lt_add_right (Nat.add_lt_add_left hlt _) _
    _ = _ := (hsum c).symm
    _ = z.left := by rw [hself, left]

/-- One of the calls can go on until all are over, and they will be. -/
structure Proceeds (path : String) (z : Shared) : Prop where
  unblocked : (∀ c ∈ z.calls, c.phase.isOver = true) ∨ ∃ i z', z.step path (.goesOn i) = some z'
  ends : ∀ i z', z.step path (.goesOn i) = some z' → z'.left < z.left

theorem goesOn_of_step (hc : z.calls[i]? = some c)
    (hp : c.phase.step path c.operation z.tree = some (p, u))
    (lock : c.phase.isLocking = true ∨ z.isLocked = false) :
    z.step path (.goesOn i) = some (z.move i c p u) := by
  rw [step, hc, Option.bind_eq_bind, Option.bind_some, hp, Option.bind_eq_bind, Option.bind_some]
  refine if_neg fun hwaits => ?_
  rcases lock with hl | hl
  · simp [hl] at hwaits
  · simp [hl] at hwaits

theorem Ordered.proceeds {log : List Entry} (h : Ordered s t₀ m₀ z log) : Proceeds s.ledger z where
  unblocked := by
    have hread := h.held.read h.serves
    cases hl : z.isLocked with
    | true =>
      -- whoever has the lock can go on
      obtain ⟨c, hc, hlocking⟩ := List.any_eq_true.mp hl
      obtain ⟨i, hi⟩ := List.mem_iff_getElem?.mp hc
      have notOver := Phase.not_over_of_locking hlocking
      obtain ⟨⟨p, u⟩, hp⟩ := Phase.exists_step hread (h.held.stage i c hi) notOver
      exact .inr ⟨i, _, goesOn_of_step hi hp (.inl hlocking)⟩
    | false =>
      by_cases hover : ∀ c ∈ z.calls, c.phase.isOver = true
      · exact .inl hover
      · simp only [not_forall] at hover
        obtain ⟨c, hc, notOver⟩ := hover
        obtain ⟨i, hi⟩ := List.mem_iff_getElem?.mp hc
        obtain ⟨⟨p, u⟩, hp⟩ := Phase.exists_step hread (h.held.stage i c hi) (by simpa using notOver)
        exact .inr ⟨i, _, goesOn_of_step hi hp (.inr hl)⟩
  ends := by
    intro i z' hstep
    obtain ⟨c, p, u, hc, hp, -, rfl⟩ := of_goesOn hstep
    have hgoes := Phase.goes_of_step h.serves (h.held.read h.serves) (h.held.stage i c hc) hp
    exact left_move_lt hc hgoes.left_lt

/-! ## The order of the calls -/

/-- The calls have been made as if one after the other. -/
structure Linearizes (s : Storage) (t₀ : FileTree) (m₀ : Contents) (z : Shared)
    (log : List Entry) : Prop extends Logged z log where
  complete : (∀ c ∈ z.calls, c.phase.isOver = true) →
    (log.map Entry.number).Perm (List.range z.calls.length)
  sequential : log.map Entry.answer = s.performAll (log.map Entry.operation) t₀
  /-- The answers are those of a map, so that no call has failed. -/
  mapped : log.map Entry.answer = m₀.answers (log.map Entry.operation)
  stored : File.read z.tree s.ledger = .ok (m₀.afterAll (log.map Entry.operation))
  settled : z.isLocked = false → z.tree = s.treeAfter (log.map Entry.operation) t₀

theorem Logged.complete {log : List Entry} (h : Logged z log)
    (ended : ∀ c ∈ z.calls, c.phase.isOver = true) :
    (log.map Entry.number).Perm (List.range z.calls.length) := by
  rw [List.perm_ext_iff_of_nodup h.once List.nodup_range]
  intro i
  rw [List.mem_range, List.mem_map]
  constructor
  · rintro ⟨e, he, rfl⟩
    obtain ⟨c, hc, -⟩ := (h.answered e).mp he
    exact (List.getElem?_eq_some_iff.mp hc).1
  · intro hi
    have hc : z.calls[i]? = some z.calls[i] := List.getElem?_eq_getElem hi
    have hended := ended _ (List.mem_of_getElem? hc)
    cases hp : z.calls[i].phase with
    | ended a =>
      have hanswer : z.calls[i].phase.answer? = some a := by rw [hp]; rfl
      exact ⟨⟨i, _, a⟩, (h.answered _).mpr ⟨_, hc, rfl, hanswer⟩, rfl⟩
    | _ =>
      rw [hp] at hended
      cases hended

/-- Calls on one ledger's file at the same time are answered, and leave the file, as calls one after
the other, in an order in which none stands before one that was over when it began. The ledger can be
read at the start, and operations on its file do not fail then: it can be written, and it can be read
if it is there, which only a path that leads upwards out of a missing directory would prevent. -/
theorem linearizes_of_run (json : s.backend = .json)
    (readable : File.read t₀ s.ledger = .ok m₀) (writable : File.Writable s.ledger t₀)
    (shown : ∀ c, t₀.node? (t₀.partsOf s.ledger) = some (.file c) → t₀.read s.ledger = .ok c)
    (run : Run s.ledger t₀ z) : (∃ log, Linearizes s t₀ m₀ z log) ∧ Proceeds s.ledger z := by
  obtain ⟨log, h⟩ := run.ordered json (File.serves_of_shown readable writable shown)
  have filed : s.Filed m₀ t₀ := ⟨File.keyed_of_read readable, readable, writable⟩
  have hanswers := (Storage.json_follows json).answers filed (log.map Entry.operation)
  refine ⟨⟨log, h.logged, h.logged.complete, h.sequential, ?_, ?_, ?_⟩, h.proceeds⟩
  · exact h.sequential.trans hanswers
  · exact h.held.read h.serves
  · exact h.held.free

/-- A second record has to wait until the first one is in the file, and a list is made meanwhile.
Both records are there in the end. -/
theorem linearizes_upserts_and_list :
    ∃ z log, Run "/plugins/ledger.json" ⟨[], []⟩ z ∧
      Linearizes ⟨"/kpm.db", "/plugins/ledger.json", .json⟩ ⟨[], []⟩ .empty z log ∧
      (log.map Entry.number).Perm [0, 1, 2] ∧
      File.records z.tree "/plugins/ledger.json" = .ok [{ key := "a" }, { key := "b" }] := by
  let events : List Event := [.begins (.upsert { key := "a" }), .goesOn 0, .goesOn 0,
    .begins (.upsert { key := "b" }), .goesOn 0, .goesOn 0, .begins .list, .goesOn 2, .goesOn 0,
    .goesOn 0, .goesOn 1, .goesOn 1, .goesOn 2, .goesOn 0, .goesOn 1, .goesOn 1, .goesOn 1,
    .goesOn 1, .goesOn 1]
  have ends : (events.foldlM (Shared.step "/plugins/ledger.json") ⟨⟨[], []⟩, []⟩).any (fun z =>
      z.calls.length == 3 && z.calls.all (·.phase.isOver) &&
        decide (File.records z.tree "/plugins/ledger.json" =
          .ok [{ key := "a" }, { key := "b" }])) = true := by
    decide +kernel
  have readable : File.read ⟨[], []⟩ "/plugins/ledger.json" = .ok .empty := rfl
  have writable : File.Writable "/plugins/ledger.json" ⟨[], []⟩ := by
    rw [File.Writable]
    rfl
  have straight : ".." ∉ Path.segments "/plugins/ledger.json" := by decide
  have rooted : FileTree.Rooted ⟨[], []⟩ := by
    intro parts name n hn
    simp [FileTree.node?] at hn
  have shown := File.shown_of_rooted rooted straight readable writable
  cases hz : events.foldlM (Shared.step "/plugins/ledger.json") ⟨⟨[], []⟩, []⟩ with
  | none =>
    rw [hz] at ends
    cases ends
  | some z =>
    rw [hz, Option.any_some, Bool.and_eq_true, Bool.and_eq_true] at ends
    obtain ⟨⟨hlength, hover⟩, hrecords⟩ := ends
    have run := Run.start.nexts hz
    obtain ⟨⟨log, h⟩, -⟩ := linearizes_of_run (s := ⟨"/kpm.db", "/plugins/ledger.json", .json⟩)
      rfl readable writable shown run
    have hperm := h.complete (List.all_eq_true.mp hover)
    rw [eq_of_beq hlength] at hperm
    exact ⟨z, log, run, h, hperm, of_decide_eq_true hrecords⟩

end Ledger.Shared

end PluginResolution
