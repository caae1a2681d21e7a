import Mathlib.Data.List.Induction
import Mathlib.Data.List.Sort
import PluginResolution.Proofs.LedgerFile

namespace PluginResolution

namespace KeyMap

variable {α : Type}

def lastOf (l : List (String × α)) (key : String) : Option α :=
  (l.reverse.find? (·.1 = key)).map (·.2)

theorem lastOf_concat (l : List (String × α)) (e : String × α) (key : String) :
    lastOf (l ++ [e]) key = if e.1 = key then some e.2 else lastOf l key := by
  rw [lastOf, List.reverse_concat]
  by_cases he : e.1 = key
  · rw [if_pos he, List.find?_cons_of_pos (by simpa using he), Option.map_some]
  · rw [if_neg he, List.find?_cons_of_neg (by simpa using he), lastOf]

/-- Of several values for a key the last one is found. -/
theorem find?_ofList (l : List (String × α)) (key : String) :
    (ofList l).find? key = lastOf l key := by
  induction l using List.reverseRecOn with
  | nil => rfl
  | append_singleton l e ih =>
    have hlast : ofList (l ++ [e]) = (ofList l).insert e.1 e.2 := by
      rw [ofList, List.foldl_append]
      rfl
    rw [hlast, lastOf_concat]
    by_cases he : e.1 = key
    · rw [if_pos he, ← he, find?_insert_self]
    · rw [if_neg he, find?_insert_of_ne _ _ (Ne.symm he), ih]

/-- Maps are the same if the same is found in them. -/
theorem ext_find {m m' : KeyMap α} (h : ∀ key, m.find? key = m'.find? key) : m = m' := by
  have hsame : ∀ e, e ∈ m.entries ↔ e ∈ m'.entries := by
    rintro ⟨key, value⟩
    rw [mem_entries_iff, h, ← mem_entries_iff]
  have : Std.Irrefl fun a b : String × α => a.1 < b.1 := ⟨fun a => String.lt_irrefl a.1⟩
  have : Std.Antisymm fun a b : String × α => a.1 < b.1 :=
    ⟨fun a b hab hba => absurd hba (String.lt_asymm hab)⟩
  exact ext_entries (m.sorted.eq_of_mem_iff m'.sorted hsame)

end KeyMap

namespace Ledger.File

variable {path : String} {t t' : FileTree} {m : Contents}

/-- What a file says of a ledger. A missing or blank one says that there is no record. In any other
there is an object, and the last field of a name is the record under that key. -/
inductive Tells (t : FileTree) (path : String) (m : Contents) : Prop
  | missing (absent : t.readText path = .error .missing) (nothing : ∀ key, m.find? key = none)
  | blank {text} (present : t.readText path = .ok text) (blank : Text.isBlankText text = true)
      (nothing : ∀ key, m.find? key = none)
  | object {text fields records} (present : t.readText path = .ok text)
      (visible : Text.isBlankText text = false) (spelled : Json.read text = some (.object fields))
      (recorded : fields.mapM Contents.recordOf? = some records)
      (last : ∀ key, m.find? key = KeyMap.lastOf records key)

theorem read_of_text {text : String} (present : t.readText path = .ok text)
    (htext : Contents.ofText? text = some m) : read t path = .ok m := by
  rw [read, present]
  simp only [htext]

/-- A file is read as the map of which it says what it holds, and other files are not read. -/
theorem read_eq_ok_iff : read t path = .ok m ↔ Tells t path m := by
  constructor
  · intro h
    rw [read] at h
    split at h
    · rename_i absent
      cases h
      exact .missing absent fun _ => rfl
    · cases h
    · rename_i text present
      split at h
      · rename_i m' htext
        cases h
        rw [Contents.ofText?] at htext
        split at htext
        · rename_i blank
          cases htext
          exact .blank present blank fun _ => rfl
        · rename_i visible
          obtain ⟨j, spelled, hj⟩ := Option.bind_eq_some_iff.mp htext
          cases j with
          | object fields =>
            obtain ⟨records, recorded, rfl⟩ := Option.map_eq_some_iff.mp hj
            exact .object present (by simpa using visible) spelled recorded (KeyMap.find?_ofList records)
          | _ => cases hj
      · cases h
  · intro h
    cases h with
    | missing absent nothing =>
      have hm : m = .empty := KeyMap.ext_find nothing
      rw [read, absent, hm]
    | blank present blank nothing =>
      have hm : m = .empty := KeyMap.ext_find nothing
      exact read_of_text present (by rw [Contents.ofText?, blank, hm]; rfl)
    | object present visible spelled recorded last =>
      have hm := KeyMap.ext_find fun key => (last key).trans (KeyMap.find?_ofList _ key).symm
      refine read_of_text present ?_
      rw [Contents.ofText?, visible, spelled, hm]
      exact congrArg (Option.map KeyMap.ofList) recorded

theorem read_of_records {l : List Record} (h : records t path = .ok l) :
    ∃ m, read t path = .ok m ∧ m.values = l := by
  cases hread : read t path with
  | error e =>
    rw [records, hread] at h
    cases h
  | ok m =>
    rw [records_of_read hread] at h
    exact ⟨m, rfl, Except.ok.inj h⟩

/-- Whether a ledger can be written does not depend on what it holds. -/
theorem write_eq_ok_iff (hm : m.Keyed) : (write path m t).1 = .ok () ↔ Writable path t := by
  constructor
  · intro h
    obtain ⟨t', hwrite, -⟩ := write_of_write h Contents.keyed_empty
    rw [Writable, hwrite]
  · intro h
    obtain ⟨t', hwrite, -⟩ := write_of_writable h hm
    rw [hwrite]

/-- A ledger is read as it was written. -/
theorem read_of_write (hm : m.Keyed) (h : write path m t = (.ok (), t')) :
    read t' path = .ok m := by
  obtain ⟨t'', hwrite, -, hread⟩ := write_of_write (congrArg Prod.fst h) hm
  rw [h] at hwrite
  cases hwrite
  exact hread

theorem upsert_of_blank {r : Record} (hblank : Text.isBlankText r.key = true) (t : FileTree) :
    upsert path r t = (.error .blankKey, t) := by
  rw [upsert, hblank]
  rfl

theorem read_of_upsert (hread : read t path = .ok m) {r : Record}
    (h : upsert path r t = (.ok (), t')) : read t' path = .ok (m.insert r.key r) := by
  cases hblank : Text.isBlankText r.key with
  | true =>
    rw [upsert_of_blank hblank] at h
    cases h
  | false =>
    rw [upsert_of_read hread hblank] at h
    exact read_of_write ((keyed_of_read hread).insert r) h

theorem read_of_remove (hread : read t path = .ok m) {key : String}
    (h : remove path key t = (.ok (), t')) : read t' path = .ok (m.erase key) := by
  cases hf : m.find? key with
  | none =>
    rw [remove_of_missing hread hf] at h
    cases h
  | some r =>
    rw [remove_of_found hread hf] at h
    exact read_of_write ((keyed_of_read hread).erase key) h

theorem upsert_eq_ok_iff (hread : read t path = .ok m) (r : Record) :
    (upsert path r t).1 = .ok () ↔ Text.isBlankText r.key = false ∧ Writable path t := by
  cases hblank : Text.isBlankText r.key with
  | true =>
    rw [upsert_of_blank hblank]
    exact ⟨nofun, fun h => nomatch h.1⟩
  | false =>
    rw [upsert_of_read hread hblank, write_eq_ok_iff ((keyed_of_read hread).insert r)]
    exact (and_iff_right rfl).symm

theorem remove_eq_ok_iff (hread : read t path = .ok m) (key : String) :
    (remove path key t).1 = .ok () ↔ m.find? key ≠ none ∧ Writable path t := by
  cases hf : m.find? key with
  | none =>
    rw [remove_of_missing hread hf]
    exact ⟨nofun, fun h => absurd rfl h.1⟩
  | some r =>
    rw [remove_of_found hread hf, write_eq_ok_iff ((keyed_of_read hread).erase key)]
    exact (and_iff_right (Option.some_ne_none r)).symm

/-- The file is a map of records with their own keys, and operations on it that succeed are updates of
the map. -/
structure ActsAsMap (path : String) (t : FileTree) (m : Contents) : Prop where
  tells : Tells t path m
  keyed : m.Keyed
  upsert_succeeds : ∀ r, (upsert path r t).1 = .ok () ↔
    Text.isBlankText r.key = false ∧ Writable path t
  upsert : ∀ r t', upsert path r t = (.ok (), t') → read t' path = .ok (m.insert r.key r)
  remove_succeeds : ∀ key, (remove path key t).1 = .ok () ↔ m.find? key ≠ none ∧ Writable path t
  remove : ∀ key t', remove path key t = (.ok (), t') → read t' path = .ok (m.erase key)

/-- Every file that is read acts as the map it is read as, whatever its layout is; and whatever was
written as a ledger is read as that ledger. -/
theorem file_acts_as_map (path : String) :
    (∀ t m, read t path = .ok m → ActsAsMap path t m) ∧
      ∀ t t' m, m.Keyed → write path m t = (.ok (), t') → read t' path = .ok m := by
  refine ⟨fun t m hread => ?_, fun t t' m hm h => read_of_write hm h⟩
  exact {
    tells := read_eq_ok_iff.mp hread
    keyed := keyed_of_read hread
    upsert_succeeds := upsert_eq_ok_iff hread
    upsert := fun r t' => read_of_upsert hread
    remove_succeeds := remove_eq_ok_iff hread
    remove := fun key t' => read_of_remove hread }

def laxText : String :=
  "\x7b\"a\" : \x7b\"version\":\"1\"\x7d,\n\t\"b\\u0022\\n\":\x7b\"more\":[1.5e3,\x7b\x7d]," ++
    "\"language\":null\x7d, \"a\":\x7b\"version\" :\"\\ud83d\\ude00\"\x7d \x7d"

theorem file_acts_as_map_of_lax_text :
    let t : FileTree := ⟨[(["ledger.json"], .file (.text laxText))], []⟩
    let r : Record := { key := "c\\", language := some "" }
    ∃ m t', read t "/ledger.json" = .ok m ∧
      m.values = [{ key := "a", version := some "😀" }, { key := "b\"\n" }] ∧
      upsert "/ledger.json" r t = (.ok (), t') ∧
      read t' "/ledger.json" = .ok (m.insert r.key r) := by
  intro t r
  have hrecords : records t "/ledger.json" =
      .ok [{ key := "a", version := some "😀" }, { key := "b\"\n" }] := by decide +kernel
  obtain ⟨m, hread, hvalues⟩ := read_of_records hrecords
  have hupsert : (upsert "/ledger.json" r t).1 = .ok () := by decide +kernel
  obtain ⟨t', ht'⟩ : ∃ t', upsert "/ledger.json" r t = (.ok (), t') := ⟨_, Prod.ext hupsert rfl⟩
  exact ⟨m, t', hread, hvalues, ht',
    ((file_acts_as_map "/ledger.json").1 t m hread).upsert r t' ht'⟩

end Ledger.File

end PluginResolution
