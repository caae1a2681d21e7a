import Mathlib.Data.List.Forall2
import PluginResolution.Proofs.JsonTokens

namespace PluginResolution.Json

/-- Something that is spelled: a value, or what follows the opening bracket of one that is not
empty. -/
inductive Part where
  | value (j : Json)
  | items (js : List Json)
  | fields (fs : List (String × Json))

def Gap (cs : List Char) : Prop :=
  ∀ c ∈ cs, isSpace c = true

inductive Spells : Part → List Char → Prop
  | null : Spells (.value .null) ['n', 'u', 'l', 'l']
  | natural (n : Nat) : Spells (.value (.natural n)) (Nat.toDigits 10 n)
  | text (s : String) : Spells (.value (.text s)) (quoted s)
  | noItems : Spells (.value (.array [])) ['[', ']']
  | array {js cs} (inside : Spells (.items js) cs) : Spells (.value (.array js)) ('[' :: cs)
  | noFields : Spells (.value (.object [])) ['\x7b', '\x7d']
  | object {fs cs} (inside : Spells (.fields fs) cs) : Spells (.value (.object fs)) ('\x7b' :: cs)
  | lastItem {j gap cs gap'} (before : Gap gap) (item : Spells (.value j) cs) (after : Gap gap') :
      Spells (.items [j]) (gap ++ (cs ++ (gap' ++ [']'])))
  | item {j js gap cs gap' ds} (before : Gap gap) (item : Spells (.value j) cs) (after : Gap gap')
      (others : Spells (.items js) ds) : Spells (.items (j :: js)) (gap ++ (cs ++ (gap' ++ ',' :: ds)))
  | lastField {k j gap mid cs gap'} (before : Gap gap) (inside : Gap mid)
      (value : Spells (.value j) cs) (after : Gap gap') :
      Spells (.fields [(k, j)]) (gap ++ (quoted k ++ ':' :: (mid ++ (cs ++ (gap' ++ ['\x7d'])))))
  | field {k j fs gap mid cs gap' ds} (before : Gap gap) (inside : Gap mid)
      (value : Spells (.value j) cs) (after : Gap gap') (others : Spells (.fields fs) ds) :
      Spells (.fields ((k, j) :: fs))
        (gap ++ (quoted k ++ ':' :: (mid ++ (cs ++ (gap' ++ ',' :: ds)))))

/-- With enough fuel it is read back, whatever follows, and spaces in front do not matter. -/
def Reads (p : Part) (cs : List Char) : Prop :=
  ∀ fuel rest xs, cs.length < fuel → skipSpace xs = skipSpace (cs ++ rest) →
    match p with
    | .value j => Follows rest → readValue fuel xs = some (j.toSyntax, skipSpace rest)
    | .items js => readItems fuel xs = some (toSyntaxItems js, rest)
    | .fields fs => readFields fuel xs = some (toSyntaxFields fs, rest)

theorem gap_nil : Gap [] :=
  fun _ h => absurd h List.not_mem_nil

theorem skipSpace_gap {gap : List Char} (h : Gap gap) (cs : List Char) :
    skipSpace (gap ++ cs) = skipSpace cs :=
  List.dropWhile_append_of_pos h

theorem skipSpace_of_not {c : Char} (h : isSpace c = false) (cs : List Char) :
    skipSpace (c :: cs) = c :: cs :=
  List.dropWhile_cons_of_neg (by simp [h])

theorem skipSpace_idem (cs : List Char) : skipSpace (skipSpace cs) = skipSpace cs := by
  induction cs with
  | nil => rfl
  | cons c cs ih =>
    cases h : isSpace c with
    | true =>
      have hdrop : skipSpace (c :: cs) = skipSpace cs := List.dropWhile_cons_of_pos h
      rw [hdrop, ih]
    | false => rw [skipSpace_of_not h, skipSpace_of_not h]

theorem follows_gap {gap rest : List Char} {c : Char} (hg : Gap gap)
    (hc : c = ',' ∨ c = ']' ∨ c = '\x7d') : Follows (gap ++ c :: rest) := by
  intro d hd
  cases gap with
  | nil => exact .inr (Option.some.inj hd ▸ hc)
  | cons g gap => exact .inl (Option.some.inj hd ▸ hg g List.mem_cons_self)

/-- A value begins with neither a space nor a closing bracket. -/
theorem Spells.head {j : Json} {cs : List Char} (h : Spells (.value j) cs) :
    ∃ c r, cs = c :: r ∧ isSpace c = false ∧ c ≠ ']' ∧ c ≠ '\x7d' := by
  cases h with
  | null => exact ⟨_, _, rfl, by decide⟩
  | natural n =>
    obtain ⟨c, r, hd, hc⟩ := toDigits_cons n
    obtain ⟨hspace, hplain⟩ := digit_plain hc
    exact ⟨c, r, hd, hspace, hplain _ (by decide), hplain _ (by decide)⟩
  | text s => exact ⟨_, _, rfl, by decide⟩
  | noItems => exact ⟨_, _, rfl, by decide⟩
  | array => exact ⟨_, _, rfl, by decide⟩
  | noFields => exact ⟨_, _, rfl, by decide⟩
  | object => exact ⟨_, _, rfl, by decide⟩

theorem Spells.skipSpace_append {j : Json} {cs : List Char} (h : Spells (.value j) cs)
    (rest : List Char) : skipSpace (cs ++ rest) = cs ++ rest := by
  obtain ⟨c, r, rfl, hc, -⟩ := h.head
  exact skipSpace_of_not hc _

theorem readValue_text (fuel : Nat) (s : String) {xs rest : List Char}
    (h : skipSpace xs = quoted s ++ rest) :
    readValue (fuel + 1) xs = some (.text s, skipSpace rest) := by
  have hq : quoted s ++ rest = '"' :: (s.toList.flatMap escape ++ '"' :: rest) := by
    simp [quoted]
  rw [readValue, h, hq]
  simp [readString_quoted]

theorem readValue_natural (fuel n : Nat) {xs rest : List Char}
    (h : skipSpace xs = Nat.toDigits 10 n ++ rest) (hf : Follows rest) :
    readValue (fuel + 1) xs = some (.natural n, skipSpace rest) := by
  have hread := readNumber_toDigits n hf
  obtain ⟨c, r, hd, hc⟩ := toDigits_cons n
  obtain ⟨-, hplain⟩ := digit_plain hc
  rw [hd, List.cons_append] at hread h
  rw [readValue, h]
  -- a digit begins none of the other values
  split
  · rename_i heq
    exact absurd (List.cons.inj heq).1 (hplain 'n' (by decide))
  · rename_i heq
    exact absurd (List.cons.inj heq).1 (hplain 't' (by decide))
  · rename_i heq
    exact absurd (List.cons.inj heq).1 (hplain 'f' (by decide))
  · rename_i heq
    exact absurd (List.cons.inj heq).1 (hplain '"' (by decide))
  · rename_i heq
    exact absurd (List.cons.inj heq).1 (hplain '[' (by decide))
  · rename_i heq
    exact absurd (List.cons.inj heq).1 (hplain '\x7b' (by decide))
  · rw [hread]
    rfl

/-- The items of an array begin, after spaces, with something other than a closing bracket. -/
theorem Spells.items_head {js : List Json} {cs : List Char} (h : Spells (.items js) cs)
    (rest : List Char) : ∃ c r, skipSpace (cs ++ rest) = c :: r ∧ c ≠ ']' := by
  have hitem {j : Json} {gap vs tail : List Char} (hg : Gap gap) (hv : Spells (.value j) vs) :
      ∃ c r, skipSpace (gap ++ (vs ++ tail) ++ rest) = c :: r ∧ c ≠ ']' := by
    rw [List.append_assoc, skipSpace_gap hg, List.append_assoc, hv.skipSpace_append]
    obtain ⟨c, r, rfl, -, hc, -⟩ := hv.head
    exact ⟨c, _, rfl, hc⟩
  cases h with
  | lastItem before item after => exact hitem before item
  | item before item after others => exact hitem before item

/-- The fields of an object begin, after spaces, with a quote. -/
theorem Spells.fields_head {fs : List (String × Json)} {cs : List Char}
    (h : Spells (.fields fs) cs) (rest : List Char) :
    ∃ r, skipSpace (cs ++ rest) = '"' :: r := by
  have hfield {k : String} {gap tail : List Char} (hg : Gap gap) :
      ∃ r, skipSpace (gap ++ (quoted k ++ tail) ++ rest) = '"' :: r := by
    rw [List.append_assoc, skipSpace_gap hg, quoted, List.cons_append, List.cons_append,
      skipSpace_of_not (by decide)]
    exact ⟨_, rfl⟩
  cases h with
  | lastField before inside value after => exact hfield before
  | field before inside value after others => exact hfield before

theorem Reads.array {js : List Json} {cs : List Char} (h : Reads (.items js) cs)
    (inside : Spells (.items js) cs) : Reads (.value (.array js)) ('[' :: cs) := by
  intro fuel rest xs hfuel hxs hf
  obtain ⟨fuel, rfl⟩ : ∃ f, fuel = f + 1 := ⟨fuel - 1, by omega⟩
  rw [List.cons_append, skipSpace_of_not (by decide)] at hxs
  obtain ⟨c, r, hcr, hc⟩ := inside.items_head rest
  have hlt : cs.length < fuel := Nat.lt_of_succ_lt_succ hfuel
  -- the reader has skipped the spaces already, to see whether the array is empty
  have hread := h fuel rest (c :: r) hlt (hcr ▸ skipSpace_idem (cs ++ rest))
  rw [readValue, hxs]
  simp only [hcr]
  split
  · rename_i heq
    exact absurd (List.cons.inj heq).1 hc
  · rw [hread]
    rfl

theorem Reads.object {fs : List (String × Json)} {cs : List Char} (h : Reads (.fields fs) cs)
    (inside : Spells (.fields fs) cs) : Reads (.value (.object fs)) ('\x7b' :: cs) := by
  intro fuel rest xs hfuel hxs hf
  obtain ⟨fuel, rfl⟩ : ∃ f, fuel = f + 1 := ⟨fuel - 1, by omega⟩
  rw [List.cons_append, skipSpace_of_not (by decide)] at hxs
  obtain ⟨r, hr⟩ := inside.fields_head rest
  have hlt : cs.length < fuel := Nat.lt_of_succ_lt_succ hfuel
  have hread := h fuel rest ('"' :: r) hlt (hr ▸ skipSpace_idem (cs ++ rest))
  rw [readValue, hxs]
  simp only at hread
  simp only [hr]
  split
  · rename_i heq
    exact absurd (List.cons.inj heq).1 (by decide)
  · rw [hread]
    rfl

/-- Behind a value stand spaces and the sign that ends it. -/
theorem Reads.value_step {j : Json} {cs gap' : List Char} (h : Reads (.value j) cs)
    (after : Gap gap') {c : Char} (hc : c = ',' ∨ c = ']' ∨ c = '\x7d') {fuel : Nat} (hfuel : cs.length < fuel)
    {xs tail : List Char} (hxs : skipSpace xs = skipSpace (cs ++ (gap' ++ c :: tail))) :
    readValue fuel xs = some (j.toSyntax, c :: tail) := by
  have hspace : isSpace c = false := by
    rcases hc with rfl | rfl | rfl
    · rfl
    · rfl
    · rfl
  have hread := h fuel (gap' ++ c :: tail) xs hfuel hxs (follows_gap after hc)
  rwa [skipSpace_gap after, skipSpace_of_not hspace] at hread

theorem Reads.lastItem {j : Json} {gap cs gap' : List Char} (before : Gap gap)
    (after : Gap gap') (h : Reads (.value j) cs) :
    Reads (.items [j]) (gap ++ (cs ++ (gap' ++ [']']))) := by
  intro fuel rest xs hfuel hxs
  obtain ⟨fuel, rfl⟩ : ∃ f, fuel = f + 1 := ⟨fuel - 1, by omega⟩
  simp only [List.append_assoc, List.cons_append, List.nil_append, skipSpace_gap before] at hxs
  have hlt : cs.length < fuel := by
    simp only [List.length_append, List.length_cons] at hfuel
    omega
  have hread := h.value_step after (.inr (.inl rfl)) hlt hxs
  simp [readItems, hread, toSyntaxItems]

theorem Reads.item {j : Json} {js : List Json} {gap cs gap' ds : List Char} (before : Gap gap)
    (after : Gap gap') (h : Reads (.value j) cs)
    (others : Reads (.items js) ds) :
    Reads (.items (j :: js)) (gap ++ (cs ++ (gap' ++ ',' :: ds))) := by
  intro fuel rest xs hfuel hxs
  obtain ⟨fuel, rfl⟩ : ∃ f, fuel = f + 1 := ⟨fuel - 1, by omega⟩
  simp only [List.append_assoc, List.cons_append, skipSpace_gap before] at hxs
  -- both the item and the others are shorter than what is spelled
  simp only [List.length_append, List.length_cons] at hfuel
  have hread := h.value_step after (.inl rfl) (by omega : cs.length < fuel) hxs
  have hothers := others fuel rest (ds ++ rest) (by omega) rfl
  simp only at hothers
  simp [readItems, hread, hothers, toSyntaxItems]

/-- A field is read up to its value. -/
theorem readFields_key (fuel : Nat) {k : String} {gap mid cs xs : List Char} (before : Gap gap)
    (hxs : skipSpace xs = skipSpace (gap ++ (quoted k ++ ':' :: (mid ++ cs)))) :
    readFields (fuel + 1) xs = (do
      let (value, rest) ← readValue fuel (mid ++ cs)
      match rest with
      | ',' :: r =>
        let (fields, rest) ← readFields fuel r
        return ((some k, value) :: fields, rest)
      | '\x7d' :: r => return ([(some k, value)], r)
      | _ => none) := by
  have hq : quoted k ++ ':' :: (mid ++ cs) =
      '"' :: (k.toList.flatMap escape ++ '"' :: ':' :: (mid ++ cs)) := by
    simp [quoted]
  rw [skipSpace_gap before, hq, skipSpace_of_not (by decide)] at hxs
  rw [readFields, hxs]
  simp only [readString_quoted, Option.bind_eq_bind, Option.bind_some]
  -- the reader allows spaces in front of the colon, where none are written
  generalize hrest : skipSpace (':' :: (mid ++ cs)) = rest
  rw [skipSpace_of_not (by decide)] at hrest
  subst hrest
  rfl

theorem Reads.lastField {k : String} {j : Json} {gap mid cs gap' : List Char} (before : Gap gap)
    (inside : Gap mid) (after : Gap gap') (h : Reads (.value j) cs) :
    Reads (.fields [(k, j)]) (gap ++ (quoted k ++ ':' :: (mid ++ (cs ++ (gap' ++ ['\x7d']))))) := by
  intro fuel rest xs hfuel hxs
  obtain ⟨fuel, rfl⟩ : ∃ f, fuel = f + 1 := ⟨fuel - 1, by omega⟩
  simp only [List.append_assoc, List.cons_append, List.nil_append] at hxs
  have hlt : cs.length < fuel := by
    simp only [List.length_append, List.length_cons] at hfuel
    omega
  have hread := h.value_step after (.inr (.inr rfl)) hlt
    (skipSpace_gap inside (cs ++ (gap' ++ '\x7d' :: rest)))
  rw [readFields_key fuel before hxs, hread]
  rfl

theorem Reads.field {k : String} {j : Json} {fs : List (String × Json)}
    {gap mid cs gap' ds : List Char} (before : Gap gap) (inside : Gap mid) (after : Gap gap')
    (h : Reads (.value j) cs) (others : Reads (.fields fs) ds) :
    Reads (.fields ((k, j) :: fs))
      (gap ++ (quoted k ++ ':' :: (mid ++ (cs ++ (gap' ++ ',' :: ds))))) := by
  intro fuel rest xs hfuel hxs
  obtain ⟨fuel, rfl⟩ : ∃ f, fuel = f + 1 := ⟨fuel - 1, by omega⟩
  simp only [List.append_assoc, List.cons_append] at hxs
  simp only [List.length_append, List.length_cons] at hfuel
  have hread := h.value_step after (.inl rfl) (by omega : cs.length < fuel)
    (skipSpace_gap inside (cs ++ (gap' ++ ',' :: (ds ++ rest))))
  have hothers := others fuel rest (ds ++ rest) (by omega) rfl
  simp only at hothers
  rw [readFields_key fuel before hxs, hread]
  simp [hothers, toSyntaxFields]

/-- Every spelling of a value is read back. -/
theorem reads_of_spells {p : Part} {cs : List Char} (h : Spells p cs) : Reads p cs := by
  -- on the spelling, whose length bounds the fuel that its parts need
  induction h with
  | null =>
    intro fuel rest xs hfuel hxs hf
    obtain ⟨fuel, rfl⟩ : ∃ f, fuel = f + 1 := ⟨fuel - 1, by omega⟩
    rw [Spells.null.skipSpace_append] at hxs
    rw [readValue, hxs]
    rfl
  | natural n =>
    intro fuel rest xs hfuel hxs hf
    obtain ⟨fuel, rfl⟩ : ∃ f, fuel = f + 1 := ⟨fuel - 1, by omega⟩
    rw [(Spells.natural n).skipSpace_append] at hxs
    exact readValue_natural fuel n hxs hf
  | text s =>
    intro fuel rest xs hfuel hxs hf
    obtain ⟨fuel, rfl⟩ : ∃ f, fuel = f + 1 := ⟨fuel - 1, by omega⟩
    rw [(Spells.text s).skipSpace_append] at hxs
    exact readValue_text fuel s hxs
  | noItems =>
    intro fuel rest xs hfuel hxs hf
    obtain ⟨fuel, rfl⟩ : ∃ f, fuel = f + 1 := ⟨fuel - 1, by omega⟩
    rw [Spells.noItems.skipSpace_append] at hxs
    rw [readValue, hxs]
    rfl
  | array inside ih => exact ih.array inside
  | noFields =>
    intro fuel rest xs hfuel hxs hf
    obtain ⟨fuel, rfl⟩ : ∃ f, fuel = f + 1 := ⟨fuel - 1, by omega⟩
    rw [Spells.noFields.skipSpace_append] at hxs
    rw [readValue, hxs]
    rfl
  | object inside ih => exact ih.object inside
  | lastItem before item after ih => exact .lastItem before after ih
  | item before item after others ih ihOthers => exact .item before after ih ihOthers
  | lastField before inside value after ih => exact .lastField before inside after ih
  | field before inside value after others ih ihOthers =>
    exact .field before inside after ih ihOthers

/-- A text that spells a value, with spaces around it, is read as the value. -/
theorem read_of_spells {j : Json} {cs gap gap' : List Char} (h : Spells (.value j) cs)
    (before : Gap gap) (after : Gap gap') :
    read (String.ofList (gap ++ (cs ++ gap'))) = some j.toSyntax := by
  have hskip : skipSpace gap' = [] := by
    have hgap := skipSpace_gap after []
    rwa [List.append_nil] at hgap
  have hfollows : Follows gap' := by
    intro c hc
    exact .inl (after c (List.mem_of_mem_head? hc))
  have hlt : cs.length < (gap ++ (cs ++ gap')).length + 1 := by
    simp only [List.length_append]
    omega
  have hread := reads_of_spells h _ gap' _ hlt (skipSpace_gap before (cs ++ gap')) hfollows
  rw [read, String.toList_ofList, hread, hskip]

section Printer

variable {gap close : List Char}

def FieldSpelled (f : String × Json) (part : List Char) : Prop :=
  ∃ mid cs, Gap mid ∧ Spells (.value f.2) cs ∧ part = quoted f.1 ++ ':' :: (mid ++ cs)

/-- Spelled items with separators between them, and spaces before each and in the end. -/
theorem spells_items (hg : Gap gap) (hc : Gap close) {j : Json} {js : List Json}
    {part : List Char} {parts : List (List Char)} (h : Spells (.value j) part)
    (hs : List.Forall₂ (fun j cs => Spells (.value j) cs) js parts) :
    Spells (.items (j :: js)) (gap ++ (separated (',' :: gap) (part :: parts) ++ (close ++ [']']))) := by
  induction hs generalizing j part with
  | nil => exact .lastItem hg h hc
  | cons h' hs ih =>
    have hrest := ih h'
    -- the spaces behind a comma belong to what follows
    have hitem := Spells.item hg h gap_nil hrest
    simpa [separated] using hitem

theorem spells_fields (hg : Gap gap) (hc : Gap close) {f : String × Json}
    {fs : List (String × Json)} {part : List Char} {parts : List (List Char)}
    (h : FieldSpelled f part) (hs : List.Forall₂ FieldSpelled fs parts) :
    Spells (.fields (f :: fs))
      (gap ++ (separated (',' :: gap) (part :: parts) ++ (close ++ ['\x7d']))) := by
  induction hs generalizing f part with
  | nil =>
    obtain ⟨mid, cs, hm, hv, rfl⟩ := h
    have hfield := Spells.lastField (k := f.1) hg hm hv hc
    simpa [separated] using hfield
  | cons h' hs ih =>
    have hrest := ih h'
    obtain ⟨mid, cs, hm, hv, rfl⟩ := h
    have hfield := Spells.field (k := f.1) hg hm hv gap_nil hrest
    simpa [separated] using hfield

theorem gap_lineBreak (level : Nat) : Gap (lineBreak level) := by
  intro c hc
  rcases List.mem_cons.mp hc with rfl | hc
  · rfl
  · rw [(List.mem_replicate.mp hc).2]
    rfl

mutual

theorem spells_compact (j : Json) : Spells (.value j) (compactChars j) := by
  cases j with
  | null => exact .null
  | natural n => exact .natural n
  | text s => exact .text s
  | array items =>
    have hitems := spells_compactItems items
    cases items with
    | nil => exact .noItems
    | cons j js =>
      cases hitems with
      | cons h hs => exact .array (spells_items gap_nil gap_nil h hs)
  | object fields =>
    have hfields := spells_compactFields fields
    cases fields with
    | nil => exact .noFields
    | cons f fs =>
      cases hfields with
      | cons h hs => exact .object (spells_fields gap_nil gap_nil h hs)

theorem spells_compactItems (js : List Json) :
    List.Forall₂ (fun j cs => Spells (.value j) cs) js (compactItems js) := by
  cases js with
  | nil => exact .nil
  | cons j js => exact .cons (spells_compact j) (spells_compactItems js)

theorem spells_compactFields (fs : List (String × Json)) :
    List.Forall₂ FieldSpelled fs (compactFields fs) := by
  cases fs with
  | nil => exact .nil
  | cons f fs =>
    obtain ⟨k, j⟩ := f
    exact .cons ⟨[], _, gap_nil, spells_compact j, rfl⟩ (spells_compactFields fs)

end

mutual

theorem spells_pretty (level : Nat) (j : Json) : Spells (.value j) (prettyChars level j) := by
  cases j with
  | null => exact .null
  | natural n => exact .natural n
  | text s => exact .text s
  | array items =>
    have hitems := spells_prettyItems (level + 1) items
    cases items with
    | nil => exact .noItems
    | cons j js =>
      rw [prettyItems] at hitems
      cases hitems with
      | cons h hs =>
        -- each item stands on a line of its own, and so does the closing bracket
        have hinside := spells_items (gap_lineBreak (level + 1)) (gap_lineBreak level) h hs
        rw [prettyChars, prettyItems, block, List.append_assoc, List.append_assoc]
        · exact .array hinside
        · simp
  | object fields =>
    have hfields := spells_prettyFields (level + 1) fields
    cases fields with
    | nil => exact .noFields
    | cons f fs =>
      rw [prettyFields] at hfields
      cases hfields with
      | cons h hs =>
        have hinside := spells_fields (gap_lineBreak (level + 1)) (gap_lineBreak level) h hs
        rw [prettyChars, prettyFields, block, List.append_assoc, List.append_assoc]
        · exact .object hinside
        · simp

theorem spells_prettyItems (level : Nat) (js : List Json) :
    List.Forall₂ (fun j cs => Spells (.value j) cs) js (prettyItems level js) := by
  cases js with
  | nil => exact .nil
  | cons j js => exact .cons (spells_pretty level j) (spells_prettyItems level js)

theorem spells_prettyFields (level : Nat) (fs : List (String × Json)) :
    List.Forall₂ FieldSpelled fs (prettyFields level fs) := by
  cases fs with
  | nil => exact .nil
  | cons f fs =>
    obtain ⟨k, j⟩ := f
    have hspace : Gap [' '] := fun c hc => List.mem_singleton.mp hc ▸ rfl
    exact .cons ⟨[' '], _, hspace, spells_pretty level j, rfl⟩ (spells_prettyFields level fs)

end

/-- A value is read back from its text on one line. -/
theorem read_compact (j : Json) : read j.compact = some j.toSyntax := by
  have hread := read_of_spells (spells_compact j) gap_nil gap_nil
  rwa [List.nil_append, List.append_nil] at hread

/-- A value is read back from its text over several lines. -/
theorem read_pretty (j : Json) : read j.pretty = some j.toSyntax := by
  have hread := read_of_spells (spells_pretty 0 j) gap_nil gap_nil
  rwa [List.nil_append, List.append_nil] at hread

end Printer

end PluginResolution.Json
