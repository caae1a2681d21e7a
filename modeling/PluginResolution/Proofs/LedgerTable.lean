import Mathlib.Data.List.Nodup
import PluginResolution.Ledger.Table
import PluginResolution.Proofs.LedgerText

namespace PluginResolution.Ledger

namespace Table

theorem insertByKey_perm (r : Record) (l : List Record) : (insertByKey r l).Perm (r :: l) := by
  induction l with
  | nil => exact .refl _
  | cons s rest ih =>
    rw [insertByKey]
    split
    · exact .refl _
    · exact (ih.cons s).trans (.swap r s rest)

theorem list_perm (rows : List Record) : (rows.foldr insertByKey []).Perm rows := by
  induction rows with
  | nil => exact .refl _
  | cons r rest ih => exact (insertByKey_perm r _).trans (ih.cons r)

theorem mem_list {r : Record} {t : Table} : r ∈ t.list ↔ r ∈ t.rows :=
  (list_perm t.rows).mem_iff

theorem insertByKey_sorted {r : Record} {l : List Record}
    (h : l.Pairwise fun s s' => s.key < s'.key) (hr : ∀ s ∈ l, s.key ≠ r.key) :
    (insertByKey r l).Pairwise fun s s' => s.key < s'.key := by
  induction l with
  | nil => exact List.pairwise_singleton _ _
  | cons s rest ih =>
    obtain ⟨hs, hrest⟩ := List.pairwise_cons.mp h
    rw [insertByKey]
    split
    · rename_i hlt
      refine List.pairwise_cons.mpr ⟨fun s' hs' => ?_, h⟩
      rcases List.mem_cons.mp hs' with rfl | hs'
      · exact hlt
      · exact String.lt_trans hlt (hs s' hs')
    -- keys differ, so one that does not come before comes after
    · rename_i hnlt
      have hlt : s.key < r.key := by
        refine Decidable.byContradiction fun hge => hr s List.mem_cons_self ?_
        exact String.le_antisymm (String.not_lt.mp hnlt) (String.not_lt.mp hge)
      refine List.pairwise_cons.mpr ⟨fun s' hs' => ?_, ih hrest fun s' h' => hr s' (.tail _ h')⟩
      rcases List.mem_cons.mp ((insertByKey_perm r rest).mem_iff.mp hs') with rfl | hs'
      · exact hlt
      · exact hs s' hs'

/-- The table holds what the map holds, and forbids nothing but repeated keys. -/
structure Mirrors (t : Table) (m : Contents) : Prop where
  distinct : t.distinct = []
  nodup : (t.rows.map (·.key)).Nodup
  found : ∀ key, t.find? key = m.find? key

variable {t : Table} {m : Contents}

theorem mem_rows (h : (t.rows.map (·.key)).Nodup) {r : Record} :
    r ∈ t.rows ↔ t.find? r.key = some r := by
  constructor
  · intro hr
    cases hf : t.find? r.key with
    | none =>
      have hnone := List.find?_eq_none.mp hf r hr
      simp at hnone
    | some s =>
      have hkey : s.key = r.key := by simpa using List.find?_some hf
      rw [List.inj_on_of_nodup_map h (List.mem_of_find?_eq_some hf) hr hkey]
  · exact List.mem_of_find?_eq_some

theorem list_sorted {rows : List Record} (h : (rows.map (·.key)).Nodup) :
    (rows.foldr insertByKey []).Pairwise fun r s => r.key < s.key := by
  induction rows with
  | nil => exact .nil
  | cons r rest ih =>
    obtain ⟨hnew, hrest⟩ := List.nodup_cons.mp h
    refine insertByKey_sorted (ih hrest) fun s hs he => hnew ?_
    have hmem : s ∈ rest := (list_perm rest).mem_iff.mp hs
    have hkey : s.key ∈ rest.map (·.key) := List.mem_map_of_mem hmem
    rwa [he] at hkey

theorem nodup_of_sorted {l : List Record} (h : l.Pairwise fun r s => r.key < s.key) : l.Nodup := by
  rw [List.Nodup]
  refine h.imp fun {r s} hlt he => ?_
  rw [he] at hlt
  exact String.lt_irrefl _ hlt

/-- Records in the order of their keys are one list if they are the same records. -/
theorem eq_of_sorted {l l' : List Record} (h : l.Pairwise fun r s => r.key < s.key)
    (h' : l'.Pairwise fun r s => r.key < s.key) (hsame : ∀ r, r ∈ l ↔ r ∈ l') : l = l' := by
  have hperm : l.Perm l' :=
    (List.perm_ext_iff_of_nodup (nodup_of_sorted h) (nodup_of_sorted h')).mpr hsame
  refine hperm.eq_of_pairwise (fun r s _ _ hrs hsr => ?_) h h'
  exact absurd hsr (String.lt_asymm hrs)

/-- Both list the same records in the same order. -/
theorem Mirrors.list (h : Mirrors t m) (hm : m.Keyed) : t.list = m.values := by
  refine eq_of_sorted (list_sorted h.nodup) (Contents.values_sorted hm) fun r => ?_
  have hmem : r ∈ t.list ↔ r ∈ t.rows := mem_list
  rw [hmem, mem_rows h.nodup, h.found, Contents.mem_values hm]

theorem Mirrors.get (h : Mirrors t m) (key : String) :
    t.get key = match m.find? key with
      | some r => .ok r
      | none => .error (.missing key) := by
  cases hf : m.find? key with
  | none => rw [Table.get, h.found, hf]
  | some r => rw [Table.get, h.found, hf]

theorem any_key (t : Table) (key : String) :
    t.rows.any (·.key = key) = (t.find? key).isSome := by
  rw [Bool.eq_iff_iff, List.any_eq_true, find?, List.find?_isSome]

def replacing (r s : Record) : Record :=
  if s.key = r.key then r else s

theorem key_replacing (r s : Record) : (replacing r s).key = s.key := by
  unfold replacing
  split
  · rename_i he
    exact he.symm
  · rfl

theorem find_put (t : Table) (r : Record) (key : String) :
    (t.put r).find? key = if key = r.key then some r else t.find? key := by
  have hsame : (fun s : Record => decide (s.key = key)) ∘ replacing r =
      fun s : Record => decide (s.key = key) := by
    funext s
    rw [Function.comp, key_replacing]
  rw [put, any_key]
  -- a row with that key is replaced where it stands, and a new one stands last
  cases hf : t.find? r.key with
  | some old =>
    have hput : (t.rows.map (replacing r)).find? (·.key = key) =
        (t.find? key).map (replacing r) := by
      rw [List.find?_map, hsame, find?]
    have hkey : old.key = r.key := by simpa using List.find?_some hf
    rw [Option.isSome_some, if_pos rfl, find?]
    refine hput.trans ?_
    by_cases hk : key = r.key
    · rw [if_pos hk, hk, hf, Option.map_some, replacing, if_pos hkey]
    · rw [if_neg hk]
      cases hg : t.find? key with
      | none => rfl
      | some s =>
        have hskey : s.key = key := by simpa using List.find?_some hg
        rw [Option.map_some, replacing, if_neg (hskey ▸ hk)]
  | none =>
    rw [Option.isSome_none, if_neg Bool.false_ne_true, find?, List.find?_append]
    change (t.find? key).or _ = _
    by_cases hk : key = r.key
    · rw [if_pos hk, hk, hf, Option.none_or]
      simp
    · have hother : [r].find? (·.key = key) = none := by simpa using Ne.symm hk
      rw [if_neg hk, hother, Option.or_none]

/-- After a record is put in, it is the only one under its key. -/
theorem mem_put {t : Table} {r s : Record} (h : s ∈ (t.put r).rows) (hkey : s.key = r.key) :
    s = r := by
  rw [put, any_key] at h
  cases hf : t.find? r.key with
  | some old =>
    rw [hf, Option.isSome_some, if_pos rfl] at h
    obtain ⟨x, -, rfl⟩ := List.mem_map.mp h
    by_cases hx : x.key = r.key
    · rw [if_pos hx]
    · rw [if_neg hx] at hkey
      exact absurd hkey hx
  | none =>
    rw [hf, Option.isSome_none, if_neg Bool.false_ne_true] at h
    rcases List.mem_append.mp h with h | h
    · have hnone := List.find?_eq_none.mp hf s h
      simp [hkey] at hnone
    · exact List.mem_singleton.mp h

theorem self_mem_put (t : Table) (r : Record) : r ∈ (t.put r).rows := by
  have hf : (t.put r).find? r.key = some r := by rw [find_put, if_pos rfl]
  exact List.mem_of_find?_eq_some hf

theorem nodup_put (h : (t.rows.map (·.key)).Nodup) (r : Record) :
    ((t.put r).rows.map (·.key)).Nodup := by
  rw [put, any_key]
  cases hf : t.find? r.key with
  | some old =>
    have hkeys : (t.rows.map (replacing r)).map (·.key) = t.rows.map (·.key) := by
      rw [List.map_map]
      exact List.map_congr_left fun s _ => key_replacing r s
    rw [Option.isSome_some, if_pos rfl]
    exact hkeys ▸ h
  | none =>
    rw [Option.isSome_none, if_neg Bool.false_ne_true, List.map_append, List.nodup_append]
    refine ⟨h, List.nodup_singleton _, fun key hkey other hother => ?_⟩
    obtain ⟨s, hs, rfl⟩ := List.mem_map.mp hkey
    have hnone := List.find?_eq_none.mp hf s hs
    rw [List.map_singleton, List.mem_singleton] at hother
    rw [hother]
    simpa using hnone

/-- A record is put into both. -/
theorem Mirrors.put (h : Mirrors t m) (r : Record) : Mirrors (t.put r) (m.insert r.key r) where
  distinct := by
    rw [Table.put]
    split
    · exact h.distinct
    · exact h.distinct
  nodup := nodup_put h.nodup r
  found := by
    intro key
    rw [find_put]
    split
    · rename_i he
      rw [he, KeyMap.find?_insert_self]
    · rename_i hne
      rw [h.found, KeyMap.find?_insert_of_ne m r hne]

theorem Mirrors.upsert (h : Mirrors t m) {r : Record} (hr : Text.isBlankText r.key = false) :
    ∃ t', t.upsert r = .ok t' ∧ Mirrors t' (m.insert r.key r) := by
  have hrepeated : t.repeated? r = none := by
    rw [repeated?, h.distinct]
    rfl
  refine ⟨t.put r, ?_, h.put r⟩
  rw [Table.upsert, hr, hrepeated]
  rfl

theorem Mirrors.remove_missing (h : Mirrors t m) {key : String} (hk : m.find? key = none) :
    t.remove key = .error (.missing key) := by
  rw [Table.remove, any_key, h.found, hk]
  rfl

/-- A record is removed from both. -/
theorem Mirrors.remove (h : Mirrors t m) {key : String} {r : Record} (hk : m.find? key = some r) :
    ∃ t', t.remove key = .ok t' ∧ Mirrors t' (m.erase key) := by
  refine ⟨{ t with rows := t.rows.filter (·.key ≠ key) }, ?_, h.distinct, ?_, ?_⟩
  · rw [Table.remove, any_key, h.found, hk]
    rfl
  · exact h.nodup.sublist (List.filter_sublist.map _)
  · intro other
    rw [find?, List.find?_filter]
    by_cases hkey : other = key
    · subst hkey
      rw [KeyMap.find?_erase_self, List.find?_eq_none]
      intro s _
      simp
    · rw [KeyMap.find?_erase_of_ne m hkey, ← h.found, find?]
      congr 1
      funext s
      by_cases hs : s.key = other
      · simp [hs, hkey]
      · simp [hs]

end Table

end PluginResolution.Ledger
