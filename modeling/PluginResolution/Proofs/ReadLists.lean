import Mathlib.Data.List.Forall2

namespace PluginResolution

variable {α β γ : Type} {f : α → Option β} {l : List α} {l' : List β}

theorem mapM_cons_some {a : α} {b : β} (ha : f a = some b) (hl : l.mapM f = some l') :
    (a :: l).mapM f = some (b :: l') := by
  rw [List.mapM_cons, ha, hl]
  rfl

theorem mapM_eq_some_iff : l.mapM f = some l' ↔ List.Forall₂ (fun a b => f a = some b) l l' := by
  constructor
  · intro h
    induction l generalizing l' with
    | nil =>
      cases h
      exact .nil
    | cons a l ih =>
      rw [List.mapM_cons] at h
      obtain ⟨b, hb, h⟩ := Option.bind_eq_some_iff.mp h
      obtain ⟨r, hr, h⟩ := Option.bind_eq_some_iff.mp h
      cases h
      exact .cons hb (ih hr)
  · intro h
    induction h with
    | nil => rfl
    | cons hb _ ih => exact mapM_cons_some hb ih

theorem mapM_of_pointwise {g : α → β} (h : ∀ a ∈ l, f a = some (g a)) :
    l.mapM f = some (l.map g) := by
  rw [mapM_eq_some_iff, List.forall₂_map_right_iff, List.forall₂_same]
  exact h

theorem exists_of_mem_right {R : α → β → Prop} (h : List.Forall₂ R l l') {b : β} (hb : b ∈ l') :
    ∃ a ∈ l, R a b := by
  induction h with
  | nil => exact absurd hb List.not_mem_nil
  | cons ha _ ih =>
    rcases List.mem_cons.mp hb with rfl | hb
    · exact ⟨_, List.mem_cons_self, ha⟩
    · obtain ⟨a, hmem, ha⟩ := ih hb
      exact ⟨a, List.mem_cons_of_mem _ hmem, ha⟩

theorem mem_of_mapM (h : l.mapM f = some l') {b : β} (hb : b ∈ l') : ∃ a ∈ l, f a = some b :=
  exists_of_mem_right (mapM_eq_some_iff.mp h) hb

theorem forall₂_congr_of_mem {R S : α → β → Prop} (h : ∀ a ∈ l, ∀ b, R a b ↔ S a b) :
    List.Forall₂ R l l' ↔ List.Forall₂ S l l' := by
  induction l generalizing l' with
  | nil => simp only [List.forall₂_nil_left_iff]
  | cons a l ih =>
    have hrest (r : List β) : List.Forall₂ R l r ↔ List.Forall₂ S l r :=
      ih fun x hx => h x (List.mem_cons_of_mem a hx)
    simp only [List.forall₂_cons_left_iff, h a List.mem_cons_self, hrest]

/-- The same list, if what is related is the same. -/
theorem eq_of_forall₂ {R : α → α → Prop} {r : List α} (h : List.Forall₂ R l r)
    (heq : ∀ a, ∀ b ∈ r, R a b → b = a) : r = l := by
  induction h with
  | nil => rfl
  | cons ha _ ih =>
    rw [heq _ _ List.mem_cons_self ha, ih fun a b hb => heq a b (List.mem_cons_of_mem _ hb)]

/-- What is read of a list is read of a related one too, if that holds item by item. -/
theorem forall₂_transport {R : α → α → Prop} {S T : α → β → Prop} {r : List α}
    (h : List.Forall₂ R l r) (hread : List.Forall₂ S l l')
    (hkeep : ∀ a a' b, R a a' → S a b → T a' b) : List.Forall₂ T r l' := by
  induction h generalizing l' with
  | nil =>
    cases hread
    exact .nil
  | cons ha _ ih =>
    cases hread with
    | cons hb hrest => exact .cons (hkeep _ _ _ ha hb) (ih hrest)

theorem exists_forall₂_iff {R : α → β → Prop} :
    (∃ l', List.Forall₂ R l l') ↔ ∀ a ∈ l, ∃ b, R a b := by
  constructor
  · rintro ⟨l', h⟩ a ha
    obtain ⟨b, -, hb⟩ := exists_of_mem_right h.flip ha
    exact ⟨b, hb⟩
  · intro h
    induction l with
    | nil => exact ⟨[], .nil⟩
    | cons a l ih =>
      obtain ⟨b, hb⟩ := h a List.mem_cons_self
      obtain ⟨r, hr⟩ := ih fun x hx => h x (List.mem_cons_of_mem a hx)
      exact ⟨b :: r, .cons hb hr⟩

/-- The list can be read exactly if each of its items can. -/
theorem exists_mapM_iff : (∃ l', l.mapM f = some l') ↔ ∀ a ∈ l, ∃ b, f a = some b := by
  simp only [mapM_eq_some_iff]
  exact exists_forall₂_iff

/-- Two readings of all items, one after the other, are two readings of each. -/
theorem mapM_bind_mapM_iff {g : β → Option γ} {r : List γ} :
    ((l.mapM f).bind fun l' => l'.mapM g) = some r ↔
      List.Forall₂ (fun a c => ∃ b, f a = some b ∧ g b = some c) l r := by
  simp only [Option.bind_eq_some_iff, mapM_eq_some_iff]
  constructor
  · rintro ⟨l', hf, hg⟩
    induction hf generalizing r with
    | nil =>
      cases hg
      exact .nil
    | cons hb _ ih =>
      cases hg with
      | cons hc hg => exact .cons ⟨_, hb, hc⟩ (ih hg)
  · intro h
    induction h with
    | nil => exact ⟨[], .nil, .nil⟩
    | cons hac _ ih =>
      obtain ⟨b, hb, hc⟩ := hac
      obtain ⟨l', hf, hg⟩ := ih
      exact ⟨b :: l', .cons hb hf, .cons hc hg⟩

end PluginResolution
