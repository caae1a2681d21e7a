namespace PluginResolution

theorem lookup_filter_self {α β : Type} [DecidableEq α] [BEq α] [LawfulBEq α] (key : α)
    (l : List (α × β)) : (l.filter (·.1 ≠ key)).lookup key = none := by
  rw [List.lookup_eq_none_iff]
  intro p hp
  have hne : p.1 ≠ key := by simpa using (List.mem_filter.mp hp).2
  simpa using hne.symm

theorem lookup_filter_of_ne {α β : Type} [DecidableEq α] [BEq α] [LawfulBEq α] {key other : α}
    (h : other ≠ key) (l : List (α × β)) : (l.filter (·.1 ≠ key)).lookup other = l.lookup other := by
  induction l with
  | nil => rfl
  | cons p r ih =>
    by_cases hp : p.1 = key
    · have hne : (other == p.1) = false := by simpa [hp] using h
      rw [List.filter_cons_of_neg (by simp [hp]), List.lookup_cons, hne]
      exact ih
    · rw [List.filter_cons_of_pos (by simp [hp]), List.lookup_cons, List.lookup_cons, ih]

end PluginResolution
