import Mathlib.Data.List.DropRight
import PluginResolution.Text.Blank

namespace PluginResolution.Text

variable {cs rest : List Char}

theorem dropTailWhile_eq_rdropWhile (p : Char → Bool) (cs : List Char) :
    dropTailWhile p cs = cs.rdropWhile p := rfl

theorem toList_trim (s : String) :
    (trim s).toList = (s.toList.dropWhile isBlank).rdropWhile isBlank := by
  rw [trim, String.toList_ofList, dropTailWhile_eq_rdropWhile]

@[simp] theorem trim_trim (s : String) : trim (trim s) = trim s := by
  have hfront : ((s.toList.dropWhile isBlank).rdropWhile isBlank).dropWhile isBlank =
      (s.toList.dropWhile isBlank).rdropWhile isBlank := by
    rw [List.dropWhile_eq_self_iff]
    intro hlength
    -- dropping at the end leaves the first character, which is no blank
    rw [(List.rdropWhile_prefix isBlank (s.toList.dropWhile isBlank)).getElem hlength]
    exact List.dropWhile_get_zero_not isBlank s.toList _
  rw [← String.toList_inj, toList_trim, toList_trim, hfront, List.rdropWhile_idempotent]

/-- Trimming leaves nothing exactly when there is nothing but blanks. -/
theorem trim_eq_empty_iff (s : String) : trim s = "" ↔ isBlankText s = true := by
  rw [← String.toList_eq_nil_iff, toList_trim, List.rdropWhile_eq_nil_iff,
    ← List.dropWhile_eq_nil_iff, List.dropWhile_idempotent, List.dropWhile_eq_nil_iff, isBlankText,
    List.all_eq_true]

theorem isBlankText_trim (s : String) : isBlankText (trim s) = isBlankText s := by
  rw [Bool.eq_iff_iff, ← trim_eq_empty_iff, ← trim_eq_empty_iff, trim_trim]

/-- Only what follows the last other character is dropped at the end. -/
theorem dropTailWhile_append {p : Char → Bool} (h : ∀ c ∈ cs, p c = false) (rest : List Char) :
    dropTailWhile p (cs ++ rest) = cs ++ dropTailWhile p rest := by
  simp only [dropTailWhile_eq_rdropWhile]
  induction rest using List.reverseRecOn with
  | nil =>
    rw [List.rdropWhile_nil, List.append_nil, List.rdropWhile_eq_self_iff]
    intro hne
    rw [h _ (List.getLast_mem hne)]
    decide
  | append_singleton before c ih =>
    rw [← List.append_assoc, List.rdropWhile_concat, List.rdropWhile_concat]
    by_cases hc : p c = true
    · rw [if_pos hc, if_pos hc, ih]
    · rw [if_neg hc, if_neg hc, List.append_assoc]

/-- A text is what trimming leaves of it, between blanks. -/
theorem exists_around_trim (s : String) : ∃ before after,
    s.toList = before ++ (trim s).toList ++ after ∧
      (∀ c ∈ before, isBlank c = true) ∧ ∀ c ∈ after, isBlank c = true := by
  let body := s.toList.dropWhile isBlank
  refine ⟨s.toList.takeWhile isBlank, body.rtakeWhile isBlank, ?_, ?_, ?_⟩
  · have hbody : body.rdropWhile isBlank ++ body.rtakeWhile isBlank = body := by
      rw [List.rdropWhile, List.rtakeWhile, ← List.reverse_append, List.takeWhile_append_dropWhile,
        List.reverse_reverse]
    rw [toList_trim, List.append_assoc, hbody, List.takeWhile_append_dropWhile]
  · exact fun c hc => List.mem_takeWhile_imp hc
  · exact fun c hc => List.mem_rtakeWhile_imp hc

/-- Where the blanks in front end the text begins, and it goes on to its last other character. -/
theorem trim_eq {s : String} {before : List Char} (hs : s.toList = before ++ (cs ++ rest))
    (hbefore : ∀ c ∈ before, isBlank c = true) (hcs : ∀ c ∈ cs, isBlank c = false)
    (hne : cs ≠ []) : (trim s).toList = cs ++ dropTailWhile isBlank rest := by
  have hhead : (cs ++ rest).dropWhile isBlank = cs ++ rest := by
    rw [List.dropWhile_eq_self_iff]
    intro hlength
    rw [List.getElem_append_left (List.length_pos_of_ne_nil hne), hcs _ (List.getElem_mem _)]
    decide
  rw [trim, String.toList_ofList, hs, List.dropWhile_append_of_pos hbefore, hhead,
    dropTailWhile_append hcs]

end PluginResolution.Text
