import PluginResolution.Proofs.ReplacedFile

/-!
Calls on one ledger's file at the same time. Each goes on step by step, in any order with the steps
of the others; only a change of the ledger takes a lock, and a look at it none. What the calls
answer, and the file, are as if the calls had been made one after the other.
-/
namespace PluginResolution.Ledger

/-- The ledger is changed by the operation, unless there is nothing to remove. -/
def Operation.isChange : Operation → Bool
  | .upsert r => !Text.isBlankText r.key
  | .remove _ => true
  | _ => false

inductive Phase where
  | begun
  | locked
  | surrounding (m : Contents)
  | drafting (m : Contents)
  | replacing
  /-- It has its answer, and still the lock. -/
  | leaving (a : Answer)
  | returning (a : Answer)
  | ended (a : Answer)

namespace Phase

def isLocking : Phase → Bool
  | locked => true
  | surrounding _ => true
  | drafting _ => true
  | replacing => true
  | leaving _ => true
  | _ => false

def answer? : Phase → Option Answer
  | leaving a => some a
  | returning a => some a
  | ended a => some a
  | _ => none

def isOver : Phase → Bool
  | ended _ => true
  | _ => false

def behind (next : Phase) : Except Error Unit × FileTree → Phase × FileTree
  | (.ok (), t) => (next, t)
  | (.error e, t) => (leaving (.done (.error e)), t)

def step (path : String) (op : Operation) (t : FileTree) : Phase → Option (Phase × FileTree)
  | begun => match op with
    | .list => some (returning (.records (File.records t path)), t)
    | .get key => some (returning (.record (File.get t path key)), t)
    | .upsert r =>
      if Text.isBlankText r.key then some (returning (.done (.error .blankKey)), t)
      else some (locked, t)
    | .remove _ => some (locked, t)
  | locked => match File.read t path with
    | .error e => some (leaving (.done (.error e)), t)
    | .ok m => match op with
      | .upsert r => some (surrounding (m.insert r.key r), t)
      | .remove key => match m.find? key with
        | none => some (leaving (.done (.error (.missing key))), t)
        | some _ => some (surrounding (m.erase key), t)
      | _ => none
  | surrounding m => some (behind (drafting m) (File.surround path t))
  | drafting m =>
    let draft := File.draft path
    some (behind replacing
      (File.attempt draft (FileTree.change (·.write draft (.text m.text))) t))
  | replacing =>
    some (behind (leaving (.done (.ok ())))
      (File.attempt path (FileTree.change (·.rename (File.draft path) path)) t))
  | leaving a => some (returning a, t)
  | returning a => some (ended a, t)
  | ended _ => none

def left : Phase → Nat
  | begun => 7
  | locked => 6
  | surrounding _ => 5
  | drafting _ => 4
  | replacing => 3
  | leaving _ => 2
  | returning _ => 1
  | ended _ => 0

theorem not_over_of_pending {p : Phase} (h : p.answer? = none) : p.isOver = false := by
  cases p with
  | ended a => cases h
  | _ => rfl

theorem not_over_of_locking {p : Phase} (h : p.isLocking = true) : p.isOver = false := by
  cases p with
  | ended a => cases h
  | _ => rfl

end Phase

structure Call where
  operation : Operation
  /-- The numbers of the calls that were over when it began. -/
  past : List Nat
  phase : Phase

structure Shared where
  tree : FileTree
  calls : List Call

inductive Event where
  | begins (op : Operation)
  | goesOn (i : Nat)

namespace Shared

def isLocked (z : Shared) : Bool :=
  z.calls.any (·.phase.isLocking)

def finished (z : Shared) : List Nat :=
  (List.range z.calls.length).filter fun i => z.calls[i]?.any (·.phase.isOver)

def begin (z : Shared) (op : Operation) : Shared :=
  { z with calls := z.calls ++ [⟨op, z.finished, .begun⟩] }

def move (z : Shared) (i : Nat) (c : Call) (phase : Phase) (tree : FileTree) : Shared :=
  ⟨tree, z.calls.set i { c with phase }⟩

/-- Whoever wants the lock waits as long as another one has it. -/
def step (path : String) (z : Shared) : Event → Option Shared
  | .begins op => some (z.begin op)
  | .goesOn i => do
    let c ← z.calls[i]?
    let (phase, tree) ← c.phase.step path c.operation z.tree
    if phase.isLocking && !c.phase.isLocking && z.isLocked then none
    else some (z.move i c phase tree)

inductive Run (path : String) (t₀ : FileTree) : Shared → Prop
  | start : Run path t₀ ⟨t₀, []⟩
  | next {z z' : Shared} {e : Event} (before : Run path t₀ z) (step : z.step path e = some z') :
      Run path t₀ z'

end Shared

/-! ## A call on its own -/

namespace Phase

section Alone

def alone (path : String) (op : Operation) : Nat → FileTree → Phase → Phase × FileTree
  | 0, t, p => (p, t)
  | n + 1, t, p => match p.step path op t with
    | some (p', t') => alone path op n t' p'
    | none => (p, t)

variable {path : String} {op : Operation} {t t' : FileTree} {p p' : Phase} {n : Nat}

theorem alone_step (h : p.step path op t = some (p', t')) :
    alone path op (n + 1) t p = alone path op n t' p' := by
  rw [alone, h]

theorem alone_leaving (n : Nat) (t : FileTree) (a : Answer) :
    alone path op (n + 2) t (leaving a) = (ended a, t) := by
  rw [alone_step rfl, alone_step rfl]
  cases n with
  | zero => rfl
  | succ n => rfl

/-- To make the directory, write the draft and rename it is to write the file. -/
theorem alone_surrounding (path : String) (op : Operation) (m : Contents) (t : FileTree) :
    alone path op 5 t (surrounding m) =
      (ended (.done (File.write path m t).1), (File.write path m t).2) := by
  rw [File.write, FileTree.run_bind, alone, step]
  cases hs : File.surround path t with
  | mk made u =>
    cases made with
    | error e => exact alone_leaving 2 u _
    | ok =>
      show alone path op 4 u (drafting m) = _
      simp only [File.replace_eq]
      rw [alone, step, File.attempt_change]
      cases hw : u.write (File.draft path) (.text m.text) with
      | error e => exact alone_leaving 1 u _
      | ok v =>
        dsimp only
        show alone path op 3 v replacing = _
        rw [alone, step, File.attempt_change]
        cases hr : v.rename (File.draft path) path with
        | error e => exact alone_leaving 0 v _
        | ok t' => exact alone_leaving 0 t' _

/-- Where the ledger is read, a change is written or there is none. -/
theorem alone_upsert (path : String) (r : Record) (hblank : Text.isBlankText r.key = false)
    (t : FileTree) : alone path (.upsert r) 6 t locked =
      (ended (.done (File.upsert path r t).1), (File.upsert path r t).2) := by
  cases hread : File.read t path with
  | error e =>
    rw [File.upsert_of_unreadable hread hblank, alone, step, hread]
    exact alone_leaving 3 t _
  | ok m =>
    have hstep : locked.step path (.upsert r) t = some (surrounding (m.insert r.key r), t) := by
      rw [step, hread]
    rw [File.upsert_of_read hread hblank, alone_step hstep]
    exact alone_surrounding path _ (m.insert r.key r) t

theorem alone_remove (path key : String) (t : FileTree) : alone path (.remove key) 6 t locked =
    (ended (.done (File.remove path key t).1), (File.remove path key t).2) := by
  cases hread : File.read t path with
  | error e =>
    rw [File.remove_of_unreadable hread key, alone, step, hread]
    exact alone_leaving 3 t _
  | ok m =>
    cases hf : m.find? key with
    | none =>
      rw [File.remove_of_missing hread hf, alone, step, hread]
      simp only [hf]
      exact alone_leaving 3 t _
    | some r =>
      have hstep : locked.step path (.remove key) t = some (surrounding (m.erase key), t) := by
        simp only [step, hread, hf]
      rw [File.remove_of_found hread hf, alone_step hstep]
      exact alone_surrounding path _ (m.erase key) t

/-- A call that goes on without any other does what the operation does. -/
theorem alone_begun {s : Storage} (json : s.backend = .json) (op : Operation) (t : FileTree) :
    alone s.ledger op 7 t begun = (ended (s.perform op t).1, (s.perform op t).2) := by
  cases op with
  | list =>
    rw [Storage.perform, Storage.records, json]
    rfl
  | get key =>
    rw [Storage.perform, Storage.get, json]
    rfl
  | upsert r =>
    rw [Storage.perform, Storage.upsert, alone, step]
    cases hblank : Text.isBlankText r.key with
    | true => rfl
    | false =>
      rw [json]
      exact alone_upsert s.ledger r hblank t
  | remove key =>
    rw [Storage.perform, Storage.remove, json]
    exact alone_remove s.ledger key t

end Alone

/-! ## What a step can be -/

/-- How far a change of a ledger has come that is in its file, and what the files are then. -/
inductive Stage (path : String) (op : Operation) (m : Contents) (t : FileTree) :
    Phase → FileTree → Prop
  | locked (change : op.isChange = true) : Stage path op m t locked t
  | surrounding (granted : m.answer op = .done (.ok ())) :
      Stage path op m t (surrounding (m.after op)) t
  | drafting {u} (granted : m.answer op = .done (.ok ()))
      (around : File.surround path t = (.ok (), u)) : Stage path op m t (drafting (m.after op)) u
  | replacing {u v t'} (granted : m.answer op = .done (.ok ()))
      (replaces : File.Replaces path m (m.after op) t u v t') : Stage path op m t replacing v
  | leaving (a : Answer) : Stage path op m t (leaving a) t

inductive Goes (path : String) (op : Operation) (m : Contents) (t : FileTree) :
    Phase → FileTree → Phase → FileTree → Prop
  | look {u} (refused : m.answer op ≠ .done (.ok ())) :
      Goes path op m t begun u (returning (m.answer op)) u
  | lock {u} (change : op.isChange = true) : Goes path op m t begun u locked u
  | refuse (refused : m.answer op ≠ .done (.ok ())) :
      Goes path op m t locked t (leaving (m.answer op)) t
  | read (granted : m.answer op = .done (.ok ())) :
      Goes path op m t locked t (surrounding (m.after op)) t
  | surround {u} (granted : m.answer op = .done (.ok ()))
      (around : File.surround path t = (.ok (), u)) :
      Goes path op m t (surrounding (m.after op)) t (drafting (m.after op)) u
  | draft {u v t'} (granted : m.answer op = .done (.ok ()))
      (replaces : File.Replaces path m (m.after op) t u v t') :
      Goes path op m t (drafting (m.after op)) u replacing v
  | replace {u v t'} (granted : m.answer op = .done (.ok ()))
      (replaces : File.Replaces path m (m.after op) t u v t') :
      Goes path op m t replacing v (leaving (m.answer op)) t'
  | leave (a : Answer) : Goes path op m t (leaving a) t (returning a) t
  | finish {u} (a : Answer) : Goes path op m t (returning a) u (ended a) u

variable {path : String} {op : Operation} {m : Contents} {t u u' : FileTree} {p p' : Phase}

/-- The file holds the ledger as long as no other one has taken its place. -/
theorem Stage.read (h : Stage path op m t p u) (serves : File.Serves path m t) :
    File.read u path = .ok m := by
  cases h with
  | locked => exact serves.stored
  | surrounding => exact serves.stored
  | drafting _ around =>
    -- the directory that was made is the one that any change would make
    obtain ⟨u', v, t', replaces⟩ := serves.replaces (serves.keyed.after op)
    have hu : u' = u := congrArg Prod.snd (replaces.around.symm.trans around)
    exact hu ▸ replaces.unchanged
  | replacing _ replaces => exact replaces.untouched
  | leaving => exact serves.stored

theorem goes_of_begun (hread : File.read u path = .ok m)
    (h : begun.step path op u = some (p', u')) : Goes path op m t begun u p' u' := by
  cases op with
  | list =>
    rw [step, File.records_of_read hread] at h
    cases h
    exact Goes.look fun (h : m.answer .list = _) => by cases h
  | get key =>
    rw [step, File.get_of_read hread] at h
    cases h
    exact Goes.look fun (h : m.answer (.get key) = _) => by cases h
  | upsert r =>
    rw [step] at h
    cases hblank : Text.isBlankText r.key with
    | true =>
      have hanswer : m.answer (.upsert r) = .done (.error .blankKey) := by
        rw [Contents.answer, hblank]
        rfl
      rw [hblank] at h
      cases h
      rw [← hanswer]
      exact .look fun granted => by cases hanswer.symm.trans granted
    | false =>
      rw [hblank] at h
      cases h
      exact .lock (by rw [Operation.isChange, hblank]; rfl)
  | remove key =>
    cases h
    exact .lock rfl

/-- With the lock the ledger is read again, so the answer is that of what is in the file now. -/
theorem goes_of_locked (hread : File.read t path = .ok m) (change : op.isChange = true)
    (h : locked.step path op t = some (p', u')) : Goes path op m t locked t p' u' := by
  cases op with
  | list => cases change
  | get key => cases change
  | upsert r =>
    have hblank : Text.isBlankText r.key = false := by simpa [Operation.isChange] using change
    have hafter : m.after (.upsert r) = m.insert r.key r := by
      rw [Contents.after, hblank]
      rfl
    rw [step, hread] at h
    cases h
    rw [← hafter]
    exact .read (by rw [Contents.answer, hblank]; rfl)
  | remove key =>
    rw [step, hread] at h
    cases hf : m.find? key with
    | none =>
      have hanswer : m.answer (.remove key) = .done (.error (.missing key)) := by
        rw [Contents.answer, hf]
      simp only [hf] at h
      cases h
      rw [← hanswer]
      exact .refuse fun granted => by cases hanswer.symm.trans granted
    | some r =>
      have hafter : m.after (.remove key) = m.erase key := by
        rw [Contents.after, hf]
        rfl
      simp only [hf] at h
      cases h
      rw [← hafter]
      exact .read (by rw [Contents.answer, hf])

/-- What a step of a call comes to that has the lock and stands where it says, or needs none. -/
theorem goes_of_step (serves : File.Serves path m t) (hread : File.read u path = .ok m)
    (stage : p.isLocking = true → Stage path op m t p u)
    (h : p.step path op u = some (p', u')) : Goes path op m t p u p' u' := by
  cases p with
  | begun => exact goes_of_begun hread h
  | locked =>
    cases stage rfl with
    | locked change => exact goes_of_locked hread change h
  | surrounding m' =>
    cases stage rfl with
    | surrounding granted =>
      obtain ⟨v, w, t', replaces⟩ := serves.replaces (serves.keyed.after op)
      rw [step, replaces.around] at h
      cases h
      exact .surround granted replaces.around
  | drafting m' =>
    cases stage rfl with
    | drafting granted around =>
      obtain ⟨v, w, t', replaces⟩ := serves.replaces (serves.keyed.after op)
      obtain rfl : v = u := congrArg Prod.snd (replaces.around.symm.trans around)
      rw [step] at h
      simp only [File.attempt_change, replaces.drafted] at h
      cases h
      exact .draft granted replaces
  | replacing =>
    cases stage rfl with
    | replacing granted replaces =>
      rw [step] at h
      simp only [File.attempt_change, replaces.renamed] at h
      cases h
      rw [← granted]
      exact .replace granted replaces
  | leaving a =>
    cases stage rfl
    cases h
    exact .leave a
  | returning a =>
    cases h
    exact .finish a
  | ended a => cases h

/-- A call that is not over has a next step. -/
theorem exists_step (hread : File.read u path = .ok m)
    (stage : p.isLocking = true → Stage path op m t p u) (notOver : p.isOver = false) :
    ∃ next, p.step path op u = some next := by
  cases p with
  | begun =>
    cases op with
    | list => exact ⟨_, rfl⟩
    | get key => exact ⟨_, rfl⟩
    | upsert r =>
      rw [step]
      split
      · exact ⟨_, rfl⟩
      · exact ⟨_, rfl⟩
    | remove key => exact ⟨_, rfl⟩
  | locked =>
    cases stage rfl with
    | locked change =>
      cases op with
      | list => cases change
      | get key => cases change
      | upsert r => exact ⟨(surrounding (m.insert r.key r), t), by rw [step, hread]⟩
      | remove key =>
        cases hf : m.find? key with
        | none =>
          refine ⟨(leaving (.done (.error (.missing key))), t), ?_⟩
          simp only [step, hread, hf]
        | some r =>
          refine ⟨(surrounding (m.erase key), t), ?_⟩
          simp only [step, hread, hf]
  | ended a => cases notOver
  | _ => exact ⟨_, rfl⟩

theorem Goes.left_lt (h : Goes path op m t p u p' u') : p'.left < p.left := by
  cases h <;> simp [left]

end Phase

namespace Shared

variable {path : String} {op : Operation} {m : Contents} {t u : FileTree} {p : Phase}
  {z z' : Shared} {i : Nat} {c : Call}

theorem get_move (hc : z.calls[i]? = some c) (j : Nat) :
    (z.move i c p u).calls[j]? = if j = i then some { c with phase := p } else z.calls[j]? := by
  obtain ⟨hlt, -⟩ := List.getElem?_eq_some_iff.mp hc
  rw [move, List.getElem?_set]
  by_cases hj : j = i
  · rw [if_pos hj.symm, if_pos hlt, if_pos hj]
  · rw [if_neg (Ne.symm hj), if_neg hj]

theorem get_begin {j : Nat} {d : Call} (h : (z.begin op).calls[j]? = some d) :
    z.calls[j]? = some d ∨ j = z.calls.length ∧ d = ⟨op, z.finished, .begun⟩ := by
  rw [begin, List.getElem?_append] at h
  split at h
  · exact .inl h
  · rename_i hlt
    obtain ⟨hj, hd⟩ := List.getElem?_eq_some_iff.mp h
    rw [List.length_singleton] at hj
    refine .inr ⟨by omega, ?_⟩
    rw [← hd, List.getElem_singleton]

theorem get_begin_of_some {j : Nat} {d : Call} (h : z.calls[j]? = some d) :
    (z.begin op).calls[j]? = some d := by
  obtain ⟨hlt, -⟩ := List.getElem?_eq_some_iff.mp h
  rw [begin, List.getElem?_append_left hlt, h]

theorem isLocked_eq_false : z.isLocked = false ↔
    ∀ (i : Nat) (c : Call), z.calls[i]? = some c → c.phase.isLocking = false := by
  rw [isLocked, List.any_eq_false]
  constructor
  · intro h i c hc
    simpa using h c (List.mem_of_getElem? hc)
  · intro h c hc
    obtain ⟨i, hi⟩ := List.mem_iff_getElem?.mp hc
    simp [h i c hi]

theorem mem_finished {j : Nat} (h : j ∈ z.finished) :
    ∃ d a, z.calls[j]? = some d ∧ d.phase = .ended a := by
  have hended := (List.mem_filter.mp h).2
  cases hd : z.calls[j]? with
  | none =>
    rw [hd] at hended
    cases hended
  | some d =>
    rw [hd] at hended
    cases hp : d.phase with
    | ended a => exact ⟨d, a, rfl, hp⟩
    | _ =>
      rw [Option.any_some, hp] at hended
      cases hended

/-! ## The lock -/

/-- One call at most has the lock. The files are as far as it has come with them, or those that hold
the ledger. -/
structure Held (path : String) (m : Contents) (t : FileTree) (z : Shared) : Prop where
  stage : ∀ (i : Nat) (c : Call), z.calls[i]? = some c → c.phase.isLocking = true →
    Phase.Stage path c.operation m t c.phase z.tree
  free : z.isLocked = false → z.tree = t
  single : ∀ (i j : Nat) (c d : Call), z.calls[i]? = some c → z.calls[j]? = some d →
    c.phase.isLocking = true → d.phase.isLocking = true → i = j

theorem Held.read (h : Held path m t z) (serves : File.Serves path m t) :
    File.read z.tree path = .ok m := by
  -- whoever has the lock may have made the directory and the draft, but not yet touched the file
  cases hl : z.isLocked with
  | false =>
    rw [h.free hl]
    exact serves.stored
  | true =>
    obtain ⟨c, hc, hlocking⟩ := List.any_eq_true.mp hl
    obtain ⟨i, hi⟩ := List.mem_iff_getElem?.mp hc
    exact (h.stage i c hi hlocking).read serves

theorem Held.begin (h : Held path m t z) (op : Operation) : Held path m t (z.begin op) where
  stage := by
    intro i c hc hlocking
    rcases get_begin hc with hc | ⟨-, rfl⟩
    · exact h.stage i c hc hlocking
    · cases hlocking
  free := by
    intro hl
    refine h.free (isLocked_eq_false.mpr fun i c hc => ?_)
    exact isLocked_eq_false.mp hl i c (get_begin_of_some hc)
  single := by
    intro i j c d hc hd hlc hld
    rcases get_begin hc with hc | ⟨-, rfl⟩
    · rcases get_begin hd with hd | ⟨-, rfl⟩
      · exact h.single i j c d hc hd hlc hld
      · cases hld
    · cases hlc

/-- A step without the lock does not touch the files. -/
theorem Held.keep (h : Held path m t z) (hc : z.calls[i]? = some c)
    (unlocked : c.phase.isLocking = false) (stays : p.isLocking = false) :
    Held path m t (z.move i c p z.tree) := by
  -- whoever has the lock is another call
  have hother (j : Nat) (d : Call) (hd : (z.move i c p z.tree).calls[j]? = some d)
      (hlocking : d.phase.isLocking = true) : z.calls[j]? = some d := by
    rw [get_move hc] at hd
    split at hd
    · cases hd
      rw [stays] at hlocking
      cases hlocking
    · exact hd
  refine ⟨fun j d hd hl => h.stage j d (hother j d hd hl) hl, fun hl => ?_, ?_⟩
  · refine h.free (isLocked_eq_false.mpr fun j d hd => ?_)
    by_cases hj : j = i
    · subst hj
      rw [hc] at hd
      cases hd
      exact unlocked
    · exact isLocked_eq_false.mp hl j d (by rw [get_move hc, if_neg hj, hd])
  · intro j k d e hd he hld hle
    exact h.single j k d e (hother j d hd hld) (hother k e he hle) hld hle

/-- A call takes the lock, has it or gives it back, and no other one has it. -/
theorem held_of_only (hc : z.calls[i]? = some c)
    (only : ∀ (j : Nat) (d : Call), z.calls[j]? = some d → d.phase.isLocking = true → j = i)
    (stage : p.isLocking = true → Phase.Stage path c.operation m t p u)
    (free : p.isLocking = false → u = t) : Held path m t (z.move i c p u) := by
  have hself (j : Nat) (d : Call) (hd : (z.move i c p u).calls[j]? = some d)
      (hlocking : d.phase.isLocking = true) : j = i := by
    rw [get_move hc] at hd
    split at hd
    · assumption
    · exact only j d hd hlocking
  refine ⟨fun j d hd hl => ?_, fun hl => ?_, ?_⟩
  · have hj := hself j d hd hl
    rw [get_move hc, if_pos hj] at hd
    cases hd
    exact stage hl
  · exact free (isLocked_eq_false.mp hl i _ (by rw [get_move hc, if_pos rfl]))
  · intro j k d e hd he hld hle
    rw [hself j d hd hld, hself k e he hle]

end Shared

end PluginResolution.Ledger
