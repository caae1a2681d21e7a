namespace PluginResolution

structure KeyMap (α : Type) where
  entries : List (String × α)
  sorted : entries.Pairwise (fun a b => a.1 < b.1)

namespace KeyMap

variable {α : Type}

def empty : KeyMap α :=
  ⟨[], .nil⟩

def insertEntry (key : String) (value : α) : List (String × α) → List (String × α)
  | [] => [(key, value)]
  | (k, v) :: r =>
    if key < k then (key, value) :: (k, v) :: r
    else if key = k then (key, value) :: r
    else (k, v) :: insertEntry key value r

theorem mem_insertEntry {key : String} {value : α} {l : List (String × α)} {e : String × α}
    (h : e ∈ insertEntry key value l) : e = (key, value) ∨ e ∈ l := by
  induction l with
  | nil => simpa [insertEntry] using h
  | cons p r ih =>
    unfold insertEntry at h
    split at h
    · exact List.mem_cons.mp h
    · split at h
      · exact (List.mem_cons.mp h).imp_right (List.mem_cons_of_mem _)
      · rcases List.mem_cons.mp h with rfl | h
        · exact .inr List.mem_cons_self
        · exact (ih h).imp_right (List.mem_cons_of_mem _)

theorem sorted_insertEntry (key : String) (value : α) {l : List (String × α)}
    (h : l.Pairwise (fun a b => a.1 < b.1)) :
    (insertEntry key value l).Pairwise (fun a b => a.1 < b.1) := by
  induction l with
  | nil => simp [insertEntry]
  | cons p r ih =>
    obtain ⟨hp, hr⟩ := List.pairwise_cons.1 h
    unfold insertEntry
    split
    · rename_i hlt
      refine List.pairwise_cons.2 ⟨fun b hb => ?_, h⟩
      rcases List.mem_cons.1 hb with rfl | hb
      · exact hlt
      · exact String.lt_trans hlt (hp b hb)
    · split
      · rename_i _ heq
        subst heq
        exact List.pairwise_cons.2 ⟨hp, hr⟩
      · rename_i hnlt hne
        refine List.pairwise_cons.2 ⟨fun b hb => ?_, ih hr⟩
        rcases mem_insertEntry hb with rfl | hb
        · refine Decidable.byContradiction fun hge => hne ?_
          exact String.le_antisymm (String.not_lt.1 hge) (String.not_lt.1 hnlt)
        · exact hp b hb

def insert (m : KeyMap α) (key : String) (value : α) : KeyMap α :=
  ⟨insertEntry key value m.entries, sorted_insertEntry key value m.sorted⟩

def erase (m : KeyMap α) (key : String) : KeyMap α :=
  ⟨m.entries.filter (·.1 ≠ key), m.sorted.filter _⟩

def find? (m : KeyMap α) (key : String) : Option α :=
  (m.entries.find? (·.1 = key)).map (·.2)

/-- A key that occurs twice keeps its last value. -/
def ofList (l : List (String × α)) : KeyMap α :=
  l.foldl (fun m (key, value) => m.insert key value) empty

def values (m : KeyMap α) : List α :=
  m.entries.map (·.2)

theorem find?_insertEntry_self (key : String) (value : α) (l : List (String × α)) :
    (insertEntry key value l).find? (·.1 = key) = some (key, value) := by
  induction l with
  | nil => simp [insertEntry]
  | cons p r ih =>
    unfold insertEntry
    split
    · simp
    · split
      · simp
      · rename_i hne
        have : ¬ p.1 = key := fun e => hne e.symm
        simpa [this] using ih

theorem find?_insertEntry_of_ne {key other : String} (value : α) (l : List (String × α))
    (h : other ≠ key) :
    (insertEntry key value l).find? (·.1 = other) = l.find? (·.1 = other) := by
  have hk : ¬ key = other := fun e => h e.symm
  induction l with
  | nil => simp [insertEntry, hk]
  | cons p r ih =>
    unfold insertEntry
    split
    · simp [hk]
    · split
      · rename_i _ heq
        have : ¬ p.1 = other := by rw [← heq]; exact hk
        simp [hk, this]
      · by_cases hp : p.1 = other
        · subst hp; simp
        · simp [hp, ih]

@[simp] theorem find?_insert_self (m : KeyMap α) (key : String) (value : α) :
    (m.insert key value).find? key = some value := by
  simp [find?, insert, find?_insertEntry_self]

theorem find?_insert_of_ne (m : KeyMap α) {key other : String} (value : α) (h : other ≠ key) :
    (m.insert key value).find? other = m.find? other := by
  simp [find?, insert, find?_insertEntry_of_ne value m.entries h]

@[simp] theorem find?_erase_self (m : KeyMap α) (key : String) :
    (m.erase key).find? key = none := by
  simp only [find?, erase, Option.map_eq_none_iff, List.find?_eq_none]
  intro e he
  simpa using (List.mem_filter.1 he).2

theorem find?_erase_of_ne (m : KeyMap α) {key other : String} (h : other ≠ key) :
    (m.erase key).find? other = m.find? other := by
  simp only [find?, erase, List.find?_filter]
  congr 2
  funext e
  by_cases he : e.1 = other <;> simp [he, h]

theorem find?_of_mem {key : String} {value : α} {l : List (String × α)}
    (hl : l.Pairwise (fun a b => a.1 < b.1)) (h : (key, value) ∈ l) :
    l.find? (·.1 = key) = some (key, value) := by
  induction l with
  | nil => exact absurd h List.not_mem_nil
  | cons p r ih =>
    obtain ⟨hp, hr⟩ := List.pairwise_cons.mp hl
    rcases List.mem_cons.mp h with rfl | h
    · exact List.find?_cons_of_pos (by simp)
    · have hlt : p.1 < key := hp (key, value) h
      have hne : p.1 ≠ key := fun he => String.lt_irrefl key (he ▸ hlt)
      rw [List.find?_cons_of_neg (by simpa using hne)]
      exact ih hr h

/-- An entry is what is found under its key. -/
theorem mem_entries_iff {m : KeyMap α} {key : String} {value : α} :
    (key, value) ∈ m.entries ↔ m.find? key = some value := by
  constructor
  · intro h
    rw [find?, find?_of_mem m.sorted h, Option.map_some]
  · intro h
    obtain ⟨e, he, rfl⟩ := Option.map_eq_some_iff.mp h
    have hkey : e.1 = key := by simpa using List.find?_some he
    exact hkey ▸ List.mem_of_find?_eq_some he

theorem ext_entries {m m' : KeyMap α} (h : m.entries = m'.entries) : m = m' := by
  cases m
  cases m'
  cases h
  rfl

theorem insertEntry_last {key : String} (value : α) {l : List (String × α)}
    (h : ∀ e ∈ l, e.1 < key) : insertEntry key value l = l ++ [(key, value)] := by
  induction l with
  | nil => rfl
  | cons p r ih =>
    have hp : p.1 < key := h p List.mem_cons_self
    have hlt : ¬key < p.1 := String.lt_asymm hp
    have hne : key ≠ p.1 := fun he => String.lt_irrefl key (he ▸ hp)
    rw [insertEntry, if_neg hlt, if_neg hne, ih fun e he => h e (List.mem_cons_of_mem _ he)]
    rfl

theorem entries_foldl_insert (l : List (String × α)) (m : KeyMap α)
    (h : (m.entries ++ l).Pairwise (fun a b => a.1 < b.1)) :
    (l.foldl (fun m e => m.insert e.1 e.2) m).entries = m.entries ++ l := by
  induction l generalizing m with
  | nil => simp
  | cons e l ih =>
    have hlast : (m.insert e.1 e.2).entries = m.entries ++ [e] :=
      insertEntry_last e.2 fun p hp =>
        (List.pairwise_append.mp h).2.2 p hp e List.mem_cons_self
    have hsplit : m.entries ++ e :: l = (m.insert e.1 e.2).entries ++ l := by simp [hlast]
    rw [List.foldl_cons, ih _ (hsplit ▸ h), hlast]
    simp

/-- A map is made again from its entries. -/
@[simp] theorem ofList_entries (m : KeyMap α) : ofList m.entries = m :=
  ext_entries (entries_foldl_insert m.entries empty m.sorted)

end KeyMap

end PluginResolution
