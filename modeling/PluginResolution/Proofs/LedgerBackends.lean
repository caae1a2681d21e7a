import PluginResolution.Proofs.LedgerFile
import PluginResolution.Proofs.LedgerTable
import PluginResolution.Storage
import PluginResolution.Text.Utf8

namespace PluginResolution

namespace Ledger

inductive Operation where
  | list
  | get (key : String)
  | upsert (r : Record)
  | remove (key : String)

inductive Answer where
  | records (result : Except Error (List Record))
  | record (result : Except Error Record)
  | done (result : Except Error Unit)

def keptUnder (key : String) (kept : Option Record) : Operation → Option Record
  | .upsert r => if r.key = key ∧ Text.isBlankText r.key = false then some r else kept
  | .remove gone => if gone = key then none else kept
  | _ => kept

def lastStored (past : List Operation) (key : String) : Option Record :=
  past.foldl (keptUnder key) none

/-- The answer that is right after some operations. A list is in the order of the bytes of the keys,
has each key once, and each record as it was stored last. -/
def Right (past : List Operation) : Operation → Answer → Prop
  | .list, .records result => ∃ l, result = .ok l ∧
      l.Pairwise (fun r s => Text.utf8 r.key.toList < Text.utf8 s.key.toList) ∧
      ∀ r, r ∈ l ↔ lastStored past r.key = some r
  | .get key, .record result =>
      result = match lastStored past key with
        | some r => .ok r
        | none => .error (.missing key)
  | .upsert r, .done result =>
      result = if Text.isBlankText r.key then .error .blankKey else .ok ()
  | .remove key, .done result =>
      result = match lastStored past key with
        | some _ => .ok ()
        | none => .error (.missing key)
  | _, _ => False

end Ledger

open Ledger (Contents Operation Answer)

namespace Storage

def perform (s : Storage) : Operation → FileTree → Answer × FileTree
  | .list, t => (s.records t).map .records id
  | .get key, t => (s.get key t).map .record id
  | .upsert r, t => (s.upsert r t).map .done id
  | .remove key, t => (s.remove key t).map .done id

def performAll (s : Storage) : List Operation → FileTree → List Answer
  | [], _ => []
  | op :: ops, t => (s.perform op t).1 :: s.performAll ops (s.perform op t).2

end Storage

namespace Ledger.Contents

def answer (m : Contents) : Operation → Answer
  | .list => .records (.ok m.values)
  | .get key => .record (match m.find? key with
      | some r => .ok r
      | none => .error (.missing key))
  | .upsert r => .done (if Text.isBlankText r.key then .error .blankKey else .ok ())
  | .remove key => .done (match m.find? key with
      | some _ => .ok ()
      | none => .error (.missing key))

def after (m : Contents) : Operation → Contents
  | .upsert r => if Text.isBlankText r.key then m else m.insert r.key r
  | .remove key => if (m.find? key).isSome then m.erase key else m
  | _ => m

def answers (m : Contents) : List Operation → List Answer
  | [] => []
  | op :: ops => m.answer op :: (m.after op).answers ops

theorem Keyed.after {m : Contents} (h : m.Keyed) (op : Operation) : (m.after op).Keyed := by
  cases op with
  | list => exact h
  | get key => exact h
  | upsert r =>
    rw [Contents.after]
    split
    · exact h
    · exact h.insert r
  | remove key =>
    rw [Contents.after]
    split
    · exact h.erase key
    · exact h

/-- The map holds under a key what was stored last. -/
theorem find_after {m : Contents} {past : List Operation}
    (h : ∀ key, m.find? key = lastStored past key) (op : Operation) (key : String) :
    (m.after op).find? key = lastStored (past ++ [op]) key := by
  -- one more operation of the past acts on what the map holds
  have hlast : lastStored (past ++ [op]) key = keptUnder key (m.find? key) op := by
    rw [h, lastStored, lastStored, List.foldl_append, List.foldl_cons, List.foldl_nil]
  rw [hlast]
  cases op with
  | list => rfl
  | get other => rfl
  | upsert r =>
    rw [after, keptUnder]
    cases hblank : Text.isBlankText r.key with
    | true => simp
    | false =>
      by_cases hkey : r.key = key
      · subst hkey
        simp
      · simp [hkey, KeyMap.find?_insert_of_ne m r (Ne.symm hkey)]
  | remove gone =>
    rw [after, keptUnder]
    by_cases hkey : gone = key
    · subst hkey
      cases hf : m.find? gone with
      | none => simp [hf]
      | some r => simp
    · cases hf : m.find? gone with
      | none => simp [hkey]
      | some r => simp [hkey, KeyMap.find?_erase_of_ne m (Ne.symm hkey)]

/-- The answer of a map is right after the operations that have led to it. -/
theorem right_answer {m : Contents} {past : List Operation} (hm : m.Keyed)
    (h : ∀ key, m.find? key = lastStored past key) (op : Operation) :
    Right past op (m.answer op) := by
  cases op with
  | list =>
    refine ⟨m.values, rfl, ?_, fun r => ?_⟩
    · exact (values_sorted hm).imp fun hlt => Text.utf8_lt (String.lt_iff.mp hlt)
    · rw [mem_values hm, h]
  | get key =>
    rw [answer, h]
    rfl
  | upsert r => rfl
  | remove key =>
    rw [answer, h]
    rfl

/-- So is each answer in a row. -/
theorem right_answers {m : Contents} {before : List Operation} (hm : m.Keyed)
    (h : ∀ key, m.find? key = lastStored before key) (past : List Operation) (op : Operation)
    (later : List Operation) :
    ∃ a, (m.answers (past ++ op :: later))[past.length]? = some a ∧ Right (before ++ past) op a := by
  -- on the operations that come first, each of which becomes one of those before
  induction past generalizing m before with
  | nil =>
    refine ⟨m.answer op, rfl, ?_⟩
    rw [List.append_nil]
    exact right_answer hm h op
  | cons first past ih =>
    obtain ⟨a, ha, hright⟩ := ih (hm.after first) (find_after h first)
    refine ⟨a, ?_, ?_⟩
    · rw [List.cons_append, answers, List.length_cons, List.getElem?_cons_succ]
      exact ha
    · rwa [List.append_assoc, List.singleton_append] at hright

end Ledger.Contents

namespace Database

variable {d : Database} {table : Ledger.Table}

theorem upsert_of_table (ht : d.table = .ok table) {r : Ledger.Record}
    (hblank : Text.isBlankText r.key = false) : d.upsert r =
      (table.upsert r).map fun table' => { d with identifiers := some table' } := by
  rw [upsert, hblank, ht]
  rfl

theorem remove_of_table (ht : d.table = .ok table) (key : String) : d.remove key =
    (table.remove key).map fun table' => { d with identifiers := some table' } := by
  rw [remove, ht]
  rfl

end Database

namespace Storage

/-- A storage that in every tree with a map answers as that map, and leaves a tree with the map after
the operation. -/
def Follows (s : Storage) (holds : Contents → FileTree → Prop) : Prop :=
  ∀ m t op, holds m t → ∃ t', s.perform op t = (m.answer op, t') ∧ holds (m.after op) t'

theorem Follows.answers {s : Storage} {holds : Contents → FileTree → Prop} (h : s.Follows holds)
    {m : Contents} {t : FileTree} (ht : holds m t) (ops : List Operation) :
    s.performAll ops t = m.answers ops := by
  induction ops generalizing m t with
  | nil => rfl
  | cons op ops ih =>
    obtain ⟨t', hperform, ht'⟩ := h m t op ht
    rw [performAll, hperform, ih ht', Contents.answers]

section Answers

variable {s : Storage} {m : Contents} {t t' : FileTree} {r : Ledger.Record} {key : String}

/-- No backend is asked for a record under a blank key. -/
theorem perform_upsert_of_blank (s : Storage) (m : Contents) (t : FileTree)
    (hblank : Text.isBlankText r.key = true) :
    s.perform (.upsert r) t = (m.answer (.upsert r), t) := by
  rw [perform, upsert, hblank, Contents.answer, hblank]
  rfl

theorem perform_upsert (m : Contents) (hblank : Text.isBlankText r.key = false)
    (h : s.upsert r t = (.ok (), t')) : s.perform (.upsert r) t = (m.answer (.upsert r), t') := by
  rw [perform, h, Contents.answer, hblank]
  rfl

theorem perform_remove_of_missing (hf : m.find? key = none)
    (h : s.remove key t = (.error (.missing key), t')) :
    s.perform (.remove key) t = (m.answer (.remove key), t') := by
  rw [perform, h, Contents.answer, hf]
  rfl

theorem perform_remove_of_found (hf : m.find? key = some r) (h : s.remove key t = (.ok (), t')) :
    s.perform (.remove key) t = (m.answer (.remove key), t') := by
  rw [perform, h, Contents.answer, hf]
  rfl

end Answers

section Database

variable {s : Storage} {t : FileTree} {d : Database}

theorem current_of_read (h : t.read s.database = .ok (.database d)) : s.current t = (.ok d, t) := by
  rw [current, h]
  rfl

theorem query_of_read (h : t.read s.database = .ok (.database d)) {α : Type}
    (ask : Database → Except Ledger.Error α) : s.query ask t = (ask d, t) := by
  rw [query, FileTree.run_bind, current_of_read h]

theorem change_error (h : t.read s.database = .ok (.database d))
    (step : Database → Except Ledger.Error Database) {e : Ledger.Error} (he : step d = .error e) :
    s.change step t = (.error e, t) := by
  rw [change, FileTree.run_bind, current_of_read h]
  simp only [he]

/-- A change that does not fail is there afterwards. -/
theorem change_ok (h : t.read s.database = .ok (.database d))
    (step : Database → Except Ledger.Error Database) {d' : Database} (hd : step d = .ok d') :
    ∃ t', s.change step t = (.ok (), t') ∧ t'.read s.database = .ok (.database d') := by
  obtain ⟨t', hw⟩ := FileTree.write_of_read h (.database d')
  refine ⟨t', ?_, FileTree.read_of_write hw⟩
  rw [change, FileTree.run_bind, current_of_read h]
  simp only [hd, hw]

structure Tabled (s : Storage) (m : Contents) (t : FileTree) : Prop where
  keyed : m.Keyed
  stored : ∃ d table, t.read s.database = .ok (.database d) ∧ d.identifiers = some table ∧
    table.Mirrors m

/-- The ledger in the database answers as a map. -/
theorem sqlite_follows (hs : s.backend = .sqlite) : s.Follows s.Tabled := by
  intro m t op ht
  obtain ⟨d, table, hread, htable, hm⟩ := ht.stored
  have hd : d.table = .ok table := by rw [Database.table, htable]
  have hkeyed := ht.keyed.after op
  cases op with
  | list =>
    refine ⟨t, ?_, ht⟩
    have hrecords : s.records t = (.ok table.list, t) := by
      rw [records, hs]
      exact (query_of_read hread _).trans (by rw [Database.records, hd]; rfl)
    rw [perform, hrecords, hm.list ht.keyed]
    rfl
  | get key =>
    refine ⟨t, ?_, ht⟩
    have hget : s.get key t = (table.get key, t) := by
      rw [get, hs]
      exact (query_of_read hread _).trans (by rw [Database.get, hd]; rfl)
    rw [perform, hget, hm.get key]
    rfl
  | upsert r =>
    cases hblank : Text.isBlankText r.key with
    | true =>
      refine ⟨t, perform_upsert_of_blank s m t hblank, ?_⟩
      rwa [Contents.after, if_pos hblank]
    | false =>
      -- the table takes the record in, and the database with that table is written back
      obtain ⟨table', hput, hm'⟩ := hm.upsert hblank
      have hstep : d.upsert r = .ok { d with identifiers := some table' } := by
        rw [Database.upsert_of_table hd hblank, hput]
        rfl
      obtain ⟨t', hchange, hread'⟩ := change_ok hread (·.upsert r) hstep
      have hupsert : s.upsert r t = (.ok (), t') := by
        rw [upsert, hblank, hs]
        exact hchange
      refine ⟨t', perform_upsert m hblank hupsert, hkeyed, _, table', hread', rfl, ?_⟩
      rwa [Contents.after, hblank]
  | remove key =>
    cases hf : m.find? key with
    | none =>
      have hstep : d.remove key = .error (.missing key) := by
        rw [Database.remove_of_table hd, hm.remove_missing hf]
        rfl
      have hremove : s.remove key t = (.error (.missing key), t) := by
        rw [remove, hs]
        exact change_error hread _ hstep
      refine ⟨t, perform_remove_of_missing hf hremove, ?_⟩
      rwa [Contents.after, hf]
    | some r =>
      obtain ⟨table', hgone, hm'⟩ := hm.remove hf
      have hstep : d.remove key = .ok { d with identifiers := some table' } := by
        rw [Database.remove_of_table hd, hgone]
        rfl
      obtain ⟨t', hchange, hread'⟩ := change_ok hread (·.remove key) hstep
      have hremove : s.remove key t = (.ok (), t') := by
        rw [remove, hs]
        exact hchange
      refine ⟨t', perform_remove_of_found hf hremove, hkeyed, _, table', hread', rfl, ?_⟩
      rwa [Contents.after, hf]

end Database

section File

variable {s : Storage} {m : Contents} {t t' : FileTree} {op : Operation}

/-- An operation that changes nothing leaves the files alone. -/
theorem perform_of_refused (hs : s.backend = .json) (hread : Ledger.File.read t s.ledger = .ok m)
    (refused : m.answer op ≠ .done (.ok ())) :
    s.perform op t = (m.answer op, t) ∧ m.after op = m := by
  cases op with
  | list =>
    refine ⟨?_, rfl⟩
    rw [perform, records, hs]
    change ((Ledger.File.records t s.ledger, t) : _ × _).map Answer.records id = _
    rw [Ledger.File.records_of_read hread]
    rfl
  | get key =>
    refine ⟨?_, rfl⟩
    rw [perform, get, hs]
    change ((Ledger.File.get t s.ledger key, t) : _ × _).map Answer.record id = _
    rw [Ledger.File.get_of_read hread]
    rfl
  | upsert r =>
    cases hblank : Text.isBlankText r.key with
    | true => exact ⟨perform_upsert_of_blank s m t hblank, by rw [Contents.after, if_pos hblank]⟩
    | false =>
      rw [Contents.answer, hblank] at refused
      exact absurd rfl refused
  | remove key =>
    cases hf : m.find? key with
    | none =>
      have hremove : s.remove key t = (.error (.missing key), t) := by
        rw [remove, hs]
        exact Ledger.File.remove_of_missing hread hf
      exact ⟨perform_remove_of_missing hf hremove, by rw [Contents.after, hf]; rfl⟩
    | some r =>
      rw [Contents.answer, hf] at refused
      exact absurd rfl refused

/-- An operation that changes the ledger writes the file. -/
theorem perform_of_granted (hs : s.backend = .json) (hread : Ledger.File.read t s.ledger = .ok m)
    (granted : m.answer op = .done (.ok ()))
    (hwrite : Ledger.File.write s.ledger (m.after op) t = (.ok (), t')) :
    s.perform op t = (m.answer op, t') := by
  cases op with
  | list => cases granted
  | get key => cases granted
  | upsert r =>
    cases hblank : Text.isBlankText r.key with
    | true =>
      rw [Contents.answer, hblank] at granted
      cases granted
    | false =>
      rw [Contents.after, hblank] at hwrite
      have hupsert : s.upsert r t = (.ok (), t') := by
        rw [upsert, hblank, hs]
        exact (Ledger.File.upsert_of_read hread hblank).trans hwrite
      exact perform_upsert m hblank hupsert
  | remove key =>
    cases hf : m.find? key with
    | none =>
      rw [Contents.answer, hf] at granted
      cases granted
    | some r =>
      rw [Contents.after, hf] at hwrite
      have hremove : s.remove key t = (.ok (), t') := by
        rw [remove, hs]
        exact (Ledger.File.remove_of_found hread hf).trans hwrite
      exact perform_remove_of_found hf hremove

structure Filed (s : Storage) (m : Contents) (t : FileTree) : Prop where
  keyed : m.Keyed
  stored : Ledger.File.read t s.ledger = .ok m
  writable : Ledger.File.Writable s.ledger t

/-- The ledger in the file answers as a map. -/
theorem json_follows (hs : s.backend = .json) : s.Follows s.Filed := by
  intro m t op ht
  have hkeyed := ht.keyed.after op
  by_cases granted : m.answer op = .done (.ok ())
  · obtain ⟨t', hwrite, hwritable, hstored⟩ := Ledger.File.write_of_writable ht.writable hkeyed
    exact ⟨t', perform_of_granted hs ht.stored granted hwrite, hkeyed, hstored, hwritable⟩
  · obtain ⟨hperform, hafter⟩ := perform_of_refused hs ht.stored granted
    exact ⟨t, hperform, hafter.symm ▸ ht⟩

end File

theorem tabled_of_fresh {s : Storage} {t : FileTree} {d : Database}
    (fresh : t.read s.database = .ok (.database d)) (no_records : d.identifiers = some {}) :
    s.Tabled .empty t where
  keyed := Contents.keyed_empty
  stored := ⟨d, {}, fresh, no_records, rfl, List.nodup_nil, fun _ => rfl⟩

theorem filed_of_absent {s : Storage} {t : FileTree} (absent : t.readText s.ledger = .error .missing)
    (writable : Ledger.File.Writable s.ledger t) : s.Filed .empty t where
  keyed := Contents.keyed_empty
  stored := by rw [Ledger.File.read, absent]
  writable := writable

/-- A database without records and a ledger's file that does not exist yet, which can be written,
give the same answer to every operation of a row, and the right one. -/
theorem backends_answer_alike {s s' : Storage} (sqlite : s.backend = .sqlite)
    (json : s'.backend = .json) {t t' : FileTree} {d : Database}
    (fresh : t.read s.database = .ok (.database d)) (no_records : d.identifiers = some {})
    (absent : t'.readText s'.ledger = .error .missing)
    (writable : Ledger.File.Writable s'.ledger t') (ops : List Operation) :
    s.performAll ops t = s'.performAll ops t' ∧
      ∀ past op later, ops = past ++ op :: later →
        ∃ a, (s.performAll ops t)[past.length]? = some a ∧ Ledger.Right past op a := by
  have hsqlite : s.performAll ops t = Contents.answers .empty ops :=
    (sqlite_follows sqlite).answers (tabled_of_fresh fresh no_records) ops
  have hjson : s'.performAll ops t' = Contents.answers .empty ops :=
    (json_follows json).answers (filed_of_absent absent writable) ops
  refine ⟨hsqlite.trans hjson.symm, ?_⟩
  rintro past op later rfl
  have hnothing : ∀ key, KeyMap.find? (.empty : Contents) key = Ledger.lastStored [] key :=
    fun _ => rfl
  have hright := Contents.right_answers Contents.keyed_empty hnothing past op later
  rwa [hsqlite]

/-- Two records come in and one that is not there is removed. An empty version is not an absent
one. -/
theorem backends_answer_alike_in_empty_trees :
    ∃ ops answers,
      performAll ⟨"/kpm.db", "/ledger.json", .sqlite⟩ ops (setUp "/kpm.db" ⟨[], []⟩).2 = answers ∧
      performAll ⟨"/kpm.db", "/ledger.json", .json⟩ ops ⟨[], []⟩ = answers ∧
      answers[3]? = some (.records (.ok [{ key := "a" }, { key := "b", version := some "" }])) := by
  have fresh : (setUp "/kpm.db" ⟨[], []⟩).2.read "/kpm.db" =
      .ok (.database { identifiers := some {}, settings := some none }) := by rfl
  have absent : FileTree.readText ⟨[], []⟩ "/ledger.json" = .error .missing := by rfl
  have writable : Ledger.File.Writable "/ledger.json" ⟨[], []⟩ := by
    rw [Ledger.File.Writable]
    rfl
  have listed : (performAll ⟨"/kpm.db", "/ledger.json", .sqlite⟩
      [.upsert { key := "b", version := some "" }, .upsert { key := "a" }, .remove "c", .list]
      (setUp "/kpm.db" ⟨[], []⟩).2)[3]? =
        some (.records (.ok [{ key := "a" }, { key := "b", version := some "" }])) := by rfl
  have sqlite : (⟨"/kpm.db", "/ledger.json", .sqlite⟩ : Storage).backend = .sqlite := rfl
  have json : (⟨"/kpm.db", "/ledger.json", .json⟩ : Storage).backend = .json := rfl
  have halike := (backends_answer_alike sqlite json fresh rfl absent writable
    [.upsert { key := "b", version := some "" }, .upsert { key := "a" }, .remove "c", .list]).1
  exact ⟨_, _, rfl, halike.symm, listed⟩

end Storage

end PluginResolution
