import PluginResolution.HostVersion
import PluginResolution.Proofs.JsonTokens
import PluginResolution.Proofs.PlacedPaths
import PluginResolution.Proofs.ReadLists
import PluginResolution.Proofs.TrimmedText

namespace PluginResolution

namespace Text

section Parts

variable {sep : Char} {parts : List (List Char)}

theorem mem_intercalate {c : Char} (h : c ∈ [sep].intercalate parts) :
    c = sep ∨ ∃ part ∈ parts, c ∈ part := by
  induction parts with
  | nil => exact absurd h List.not_mem_nil
  | cons q qs ih =>
    cases qs with
    | nil =>
      rw [List.intercalate_singleton] at h
      exact .inr ⟨q, List.mem_cons_self, h⟩
    | cons q' qs =>
      rw [List.intercalate_cons_cons] at h
      rcases List.mem_append.mp h with h | h
      · rcases List.mem_append.mp h with h | h
        · exact .inr ⟨q, List.mem_cons_self, h⟩
        · exact .inl (List.mem_singleton.mp h)
      · rcases ih h with hc | ⟨part, hp, hc⟩
        · exact .inl hc
        · exact .inr ⟨part, List.mem_cons_of_mem q hp, hc⟩

end Parts

end Text

namespace HostVersion

structure Digits (cs : List Char) (n : Nat) : Prop where
  nonempty : cs ≠ []
  decimal : ∀ c ∈ cs, c.isDigit = true
  value : Nat.ofDigitChars 10 cs 0 = n

/-- A number below 2^32 as a version may have it, perhaps with a plus sign. -/
inductive Numeral : List Char → Nat → Prop
  | bare {cs : List Char} {n : Nat} (digits : Digits cs n) (bound : n < UInt32.size) : Numeral cs n
  | signed {cs : List Char} {n : Nat} (digits : Digits cs n) (bound : n < UInt32.size) :
    Numeral ('+' :: cs) n

def IsQualifier (rest : List Char) : Prop :=
  rest = [] ∨ rest.head? = some '-'

structure Spells (s : String) (numbers : List Nat) : Prop where
  several : 2 ≤ numbers.length
  parts : ∃ before mark segments qualifier after,
    s.toList = before ++ (mark ++ ['.'].intercalate segments ++ qualifier) ++ after ∧
      (∀ c ∈ before, Text.isBlank c = true) ∧ (∀ c ∈ after, Text.isBlank c = true) ∧
      (mark = [] ∨ mark = ['v']) ∧ IsQualifier qualifier ∧ List.Forall₂ Numeral segments numbers

section Numerals

variable {cs : List Char} {n : Nat}

theorem digits_iff : Text.digitsNatural? cs = some n ↔ Digits cs n := by
  have hvalue : cs.foldl (fun n c => 10 * n + (c.toNat - 48)) 0 = Nat.ofDigitChars 10 cs 0 := rfl
  have hall : cs.all Text.isDigit = true ↔ ∀ c ∈ cs, c.isDigit = true := by
    simp only [List.all_eq_true, Json.isDigit_iff]
  rw [Text.digitsNatural?, hvalue]
  constructor
  · intro h
    split at h
    · cases h
    · rename_i hok
      rw [Bool.or_eq_true, not_or, List.isEmpty_iff] at hok
      obtain ⟨hne, hdecimal⟩ := hok
      cases h
      exact ⟨hne, hall.mp (by simpa using hdecimal), rfl⟩
  · intro h
    have hne : cs.isEmpty = false := by simpa using h.nonempty
    rw [hne, hall.mpr h.decimal, h.value]
    rfl

theorem Digits.ne_plus (h : Digits cs n) (rest : List Char) : cs ≠ '+' :: rest := by
  rintro rfl
  have hplus := h.decimal '+' List.mem_cons_self
  exact absurd hplus (by decide)

theorem natural_signed (bound : Nat) (cs : List Char) :
    Text.natural? bound ('+' :: cs) = (Text.digitsNatural? cs).filter (· < bound) :=
  rfl

theorem natural_bare {bound : Nat} (h : ∀ rest, cs ≠ '+' :: rest) :
    Text.natural? bound cs = (Text.digitsNatural? cs).filter (· < bound) := by
  rw [Text.natural?]
  exact h

theorem natural_iff : Text.natural? UInt32.size cs = some n ↔ Numeral cs n := by
  constructor
  · intro h
    by_cases hplus : ∃ rest, cs = '+' :: rest
    · obtain ⟨rest, rfl⟩ := hplus
      rw [natural_signed, Option.filter_eq_some_iff] at h
      exact .signed (digits_iff.mp h.1) (of_decide_eq_true h.2)
    · rw [natural_bare (not_exists.mp hplus), Option.filter_eq_some_iff] at h
      exact .bare (digits_iff.mp h.1) (of_decide_eq_true h.2)
  · intro h
    cases h with
    | bare digits bound =>
      rw [natural_bare digits.ne_plus, Option.filter_eq_some_iff]
      exact ⟨digits_iff.mpr digits, decide_eq_true bound⟩
    | signed digits bound =>
      rw [natural_signed, Option.filter_eq_some_iff]
      exact ⟨digits_iff.mpr digits, decide_eq_true bound⟩

theorem Numeral.bound (h : Numeral cs n) : n < UInt32.size := by
  cases h with
  | bare _ bound => exact bound
  | signed _ bound => exact bound

theorem number_eq_some_iff {u : UInt32} : number? cs = some u ↔ Numeral cs u.toNat := by
  rw [number?, Option.map_eq_some_iff]
  constructor
  · rintro ⟨n, hn, rfl⟩
    have h := natural_iff.mp hn
    rwa [UInt32.toNat_ofNat_of_lt' h.bound]
  · intro h
    exact ⟨u.toNat, natural_iff.mpr h, UInt32.ofNat_toNat⟩

theorem Numeral.number_eq (h : Numeral cs n) : number? cs = some (UInt32.ofNat n) := by
  rw [number_eq_some_iff, UInt32.toNat_ofNat_of_lt' h.bound]
  exact h

/-- A numeral stands for one number. -/
theorem Numeral.unique {m : Nat} (h : Numeral cs n) (h' : Numeral cs m) : n = m :=
  Option.some.inj ((natural_iff.mpr h).symm.trans (natural_iff.mpr h'))

theorem Numeral.digit_or_plus (h : Numeral cs n) : ∀ c ∈ cs, c.isDigit = true ∨ c = '+' := by
  intro c hc
  cases h with
  | bare digits => exact .inl (digits.decimal c hc)
  | signed digits =>
    rcases List.mem_cons.mp hc with rfl | hc
    · exact .inr rfl
    · exact .inl (digits.decimal c hc)

/-- The digits that a number is printed with are a numeral of it. -/
theorem numeral_toDigits (h : n < UInt32.size) : Numeral (Nat.toDigits 10 n) n :=
  .bare ⟨Nat.toDigits_ne_nil, fun _ hc => Nat.isDigit_of_mem_toDigits (by decide) (by decide) hc,
    Nat.ofDigitChars_ten_toDigits⟩ h

end Numerals

section Reading

variable {segments : List (List Char)} {numbers : List Nat}

/-- What numerals and points consist of stands neither for a blank, nor in front of a version, nor
before its qualifier. -/
theorem plain_of_numeral_char {c : Char} (h : c.isDigit = true ∨ c = '+' ∨ c = '.') :
    Text.isBlank c = false ∧ c ≠ 'v' ∧ c ≠ '-' := by
  rcases h with h | rfl | rfl
  · have hclass : c.isDigit = (decide (48 ≤ c.toNat) && decide (c.toNat ≤ 57)) := rfl
    rw [hclass, Bool.and_eq_true, decide_eq_true_eq, decide_eq_true_eq] at h
    have hblank : Text.isBlank c = false := by
      simp only [Text.isBlank, Bool.or_eq_false_iff, Bool.and_eq_false_iff, decide_eq_false_iff_not,
        beq_eq_false_iff_ne]
      omega
    refine ⟨hblank, ?_, ?_⟩
    · rintro rfl
      exact absurd h (by decide)
    · rintro rfl
      exact absurd h (by decide)
  · decide
  · decide

theorem chars_of_numerals (h : List.Forall₂ Numeral segments numbers) :
    ∀ c ∈ ['.'].intercalate segments, c.isDigit = true ∨ c = '+' ∨ c = '.' := by
  intro c hc
  rcases Text.mem_intercalate hc with rfl | ⟨segment, hsegment, hc⟩
  · exact .inr (.inr rfl)
  · obtain ⟨n, -, hn⟩ := exists_of_mem_right h.flip hsegment
    exact (hn.digit_or_plus c hc).imp_right .inl

theorem IsQualifier.dropTail {rest after : List Char} (h : IsQualifier rest)
    (hafter : ∀ c ∈ after, Text.isBlank c = true) :
    IsQualifier (Text.dropTailWhile Text.isBlank (rest ++ after)) := by
  rcases h with rfl | h
  · exact .inl (List.rdropWhile_eq_nil_iff.mpr hafter)
  · obtain ⟨tail, rfl⟩ := List.head?_eq_some_iff.mp h
    -- the hyphen is no blank, so it stays
    have hhyphen : ∀ c ∈ ['-'], Text.isBlank c = false := by simp [Text.isBlank]
    refine .inr ?_
    rw [List.cons_append, ← List.singleton_append, Text.dropTailWhile_append hhyphen]
    rfl

/-- There is no point in a numeral. -/
theorem splitOn_numerals (several : 2 ≤ numbers.length)
    (h : List.Forall₂ Numeral segments numbers) :
    List.splitOn '.' (['.'].intercalate segments) = segments := by
  apply List.splitOn_intercalate
  · intro segment hsegment hpoint
    obtain ⟨n, -, hn⟩ := exists_of_mem_right h.flip hsegment
    have hchar := hn.digit_or_plus '.' hpoint
    exact absurd hchar (by decide)
  · rintro rfl
    cases h
    exact absurd several (by decide)

theorem bound_of_mem (h : List.Forall₂ Numeral segments numbers) {n : Nat} (hn : n ∈ numbers) :
    n < UInt32.size := by
  obtain ⟨segment, -, hsegment⟩ := exists_of_mem_right h hn
  exact hsegment.bound

theorem numeric_unmarked {cs : List Char} (h : ∀ r, cs ≠ 'v' :: r) :
    numeric cs = cs.takeWhile (· ≠ '-') := by
  rw [numeric]
  exact h

theorem numeric_eq {mark front rest : List Char} (hmark : mark = [] ∨ mark = ['v'])
    (hfront : ∀ c ∈ front, c.isDigit = true ∨ c = '+' ∨ c = '.') (hne : front ≠ [])
    (hrest : IsQualifier rest) : numeric (mark ++ front ++ rest) = front := by
  have hkept : (front ++ rest).takeWhile (· ≠ '-') = front := by
    have hfront' : ∀ c ∈ front, decide (c ≠ '-') = true := fun c hc =>
      decide_eq_true (plain_of_numeral_char (hfront c hc)).2.2
    have hcut : rest.takeWhile (· ≠ '-') = [] := by
      rcases hrest with rfl | h
      · rfl
      · obtain ⟨tail, rfl⟩ := List.head?_eq_some_iff.mp h
        exact List.takeWhile_cons_of_neg (by decide)
    rw [List.takeWhile_append_of_pos hfront', hcut, List.append_nil]
  rcases hmark with rfl | rfl
  · obtain ⟨c, r, rfl⟩ := List.exists_cons_of_ne_nil hne
    have hc := (plain_of_numeral_char (hfront c List.mem_cons_self)).2.1
    rw [List.nil_append, numeric_unmarked, hkept]
    intro tail heq
    exact hc (List.cons.inj heq).1
  · exact hkept

theorem isQualifier_dropWhile (cs : List Char) : IsQualifier (cs.dropWhile (· ≠ '-')) := by
  cases hd : cs.dropWhile (· ≠ '-') with
  | nil => exact .inl rfl
  | cons c r =>
    have hc := List.head?_dropWhile_not (· ≠ '-') cs
    rw [hd] at hc
    exact .inr (by simpa using hc)

theorem exists_numeric (trimmed : List Char) : ∃ mark rest,
    trimmed = mark ++ numeric trimmed ++ rest ∧ (mark = [] ∨ mark = ['v']) ∧ IsQualifier rest := by
  by_cases hv : ∃ r, trimmed = 'v' :: r
  · obtain ⟨r, rfl⟩ := hv
    refine ⟨['v'], r.dropWhile (· ≠ '-'), ?_, .inr rfl, isQualifier_dropWhile r⟩
    rw [List.append_assoc]
    change 'v' :: r = 'v' :: (r.takeWhile (· ≠ '-') ++ r.dropWhile (· ≠ '-'))
    rw [List.takeWhile_append_dropWhile]
  · refine ⟨[], trimmed.dropWhile (· ≠ '-'), ?_, .inl rfl, isQualifier_dropWhile trimmed⟩
    rw [numeric_unmarked (not_exists.mp hv), List.nil_append, List.takeWhile_append_dropWhile]

/-- The numbers that a text spells are read between the points of its numeric part. -/
theorem spells_iff {s : String} : Spells s numbers ↔
    2 ≤ numbers.length ∧
      List.Forall₂ Numeral (List.splitOn '.' (numeric (Text.trim s).toList)) numbers := by
  constructor
  · rintro ⟨several, before, mark, segments, qualifier, after, hs, hbefore, hafter, hmark,
      hqualifier, hnumbers⟩
    refine ⟨several, ?_⟩
    let front := ['.'].intercalate segments
    have hchars : ∀ c ∈ front, c.isDigit = true ∨ c = '+' ∨ c = '.' := chars_of_numerals hnumbers
    have hsplit : List.splitOn '.' front = segments := splitOn_numerals several hnumbers
    have hne : front ≠ [] := by
      intro hempty
      rw [hempty] at hsplit
      rw [← hnumbers.length_eq, ← hsplit] at several
      exact absurd several (by decide)
    have hbody : ∀ c ∈ mark ++ front, Text.isBlank c = false := by
      intro c hc
      rcases List.mem_append.mp hc with hc | hc
      · rcases hmark with rfl | rfl
        · exact absurd hc List.not_mem_nil
        · rw [List.mem_singleton.mp hc]
          decide
      · exact (plain_of_numeral_char (hchars c hc)).1
    have htrim : (Text.trim s).toList =
        mark ++ front ++ Text.dropTailWhile Text.isBlank (qualifier ++ after) := by
      apply Text.trim_eq _ hbefore hbody
      · simp [hne]
      · rw [hs]
        simp only [List.append_assoc]
        rfl
    rw [htrim, numeric_eq hmark hchars hne (hqualifier.dropTail hafter), hsplit]
    exact hnumbers
  · rintro ⟨several, hnumbers⟩
    obtain ⟨before, after, hs, hbefore, hafter⟩ := Text.exists_around_trim s
    obtain ⟨mark, rest, htrim, hmark, hrest⟩ := exists_numeric (Text.trim s).toList
    refine ⟨several, before, mark, _, rest, after, ?_, hbefore, hafter, hmark, hrest, hnumbers⟩
    rw [List.intercalate_splitOn, ← htrim, hs]

end Reading

section Lines

variable {s : String} {h h' : HostVersion}

/-- A text is read as a version exactly if it spells one, and its first two numbers are kept. -/
theorem parse_eq_ok_iff : parse s = .ok h ↔
    (∃ more, Spells s (h.major.toNat :: h.minor.toNat :: more)) ∧ h.text = Text.trim s := by
  have hparse : parse s = .ok h ↔ parse? s = some h := by
    rw [parse]
    cases parse? s <;> simp
  rw [hparse, parse?]
  simp only [spells_iff]
  constructor
  · intro hread
    obtain ⟨us, hus, hread⟩ := Option.bind_eq_some_iff.mp hread
    split at hread
    · rename_i major minor more
      cases hread
      have hnumbers := (mapM_eq_some_iff.mp hus).imp fun _ _ hu => number_eq_some_iff.mp hu
      refine ⟨⟨more.map UInt32.toNat, by simp, ?_⟩, rfl⟩
      exact List.forall₂_map_right_iff.mpr hnumbers
    · cases hread
  · rintro ⟨⟨more, -, hnumbers⟩, htext⟩
    have hread := mapM_eq_some_iff.mpr
      (List.forall₂_map_right_iff.mpr (hnumbers.imp fun _ _ hn => hn.number_eq))
    rw [List.map_cons, List.map_cons, UInt32.ofNat_toNat, UInt32.ofNat_toNat] at hread
    rw [hread, ← htext]
    rfl

theorem given_of_parse_error {e : Invalid} (h : parse s = .error e) : e.given = s := by
  rw [parse] at h
  split at h
  · cases h
  · cases h
    rfl

theorem line_toList (h : HostVersion) :
    h.line.toList = Nat.toDigits 10 h.major.toNat ++ '.' :: Nat.toDigits 10 h.minor.toNat := by
  simp [line]

/-- The digits of a number have no point among them. -/
theorem splitOn_line (h : HostVersion) : List.splitOn '.' h.line.toList =
    [Nat.toDigits 10 h.major.toNat, Nat.toDigits 10 h.minor.toNat] := by
  have hpoint (n : Nat) : '.' ∉ Nat.toDigits 10 n := by
    intro hc
    have hdigit := Nat.isDigit_of_mem_toDigits (by decide) (by decide) hc
    exact absurd hdigit (by decide)
  rw [line_toList, List.splitOn_append_cons_self_of_not_mem (hpoint _),
    List.splitOn_eq_singleton (hpoint _)]

theorem line_eq_iff : h.line = h'.line ↔
    h.major.toNat = h'.major.toNat ∧ h.minor.toNat = h'.minor.toNat := by
  constructor
  · intro hline
    have hsplit := congrArg (fun s => List.splitOn '.' s.toList) hline
    simp only [splitOn_line, List.cons.injEq, and_true] at hsplit
    have hinj {m n : Nat} (hd : Nat.toDigits 10 m = Nat.toDigits 10 n) : m = n := by
      rw [← Nat.ofDigitChars_ten_toDigits (n := m), hd, Nat.ofDigitChars_ten_toDigits]
    exact ⟨hinj hsplit.1, hinj hsplit.2⟩
  · rintro ⟨hmajor, hminor⟩
    rw [line, line, hmajor, hminor]

/-- A line spells its two numbers, with nothing around them. -/
theorem spells_line (h : HostVersion) : Spells h.line [h.major.toNat, h.minor.toNat] where
  several := le_rfl
  parts := by
    refine ⟨[], [], [Nat.toDigits 10 h.major.toNat, Nat.toDigits 10 h.minor.toNat], [], [], ?_,
      by simp, by simp, .inl rfl, .inl rfl, ?_⟩
    · rw [line_toList]
      simp [List.intercalate_cons_cons]
    · refine .cons (numeral_toDigits h.major.toNat_lt) ?_
      exact .cons (numeral_toDigits h.minor.toNat_lt) .nil

/-- The numbers that a text spells are determined by it. -/
theorem Spells.unique {numbers numbers' : List Nat} (hs : Spells s numbers)
    (hs' : Spells s numbers') : numbers = numbers' :=
  List.right_unique_forall₂' (fun _ _ _ hm hn => hm.unique hn) (spells_iff.mp hs).2
    (spells_iff.mp hs').2

theorem Spells.numbers_eq {numbers : List Nat} (hs : Spells s numbers) (hp : parse s = .ok h) :
    ∃ more, numbers = h.major.toNat :: h.minor.toNat :: more := by
  obtain ⟨more, hmore⟩ := (parse_eq_ok_iff.mp hp).1
  exact ⟨more, hs.unique hmore⟩

theorem exists_parse_iff : (∃ h, parse s = .ok h) ↔ ∃ numbers, Spells s numbers := by
  constructor
  · rintro ⟨h, hp⟩
    obtain ⟨more, hs⟩ := (parse_eq_ok_iff.mp hp).1
    exact ⟨_, hs⟩
  · rintro ⟨numbers, hs⟩
    obtain ⟨several, hnumbers⟩ := spells_iff.mp hs
    rcases numbers with _ | ⟨major, _ | ⟨minor, more⟩⟩
    · exact absurd several (by simp)
    · exact absurd several (by simp)
    · have hmajor : (UInt32.ofNat major).toNat = major :=
        UInt32.toNat_ofNat_of_lt' (bound_of_mem hnumbers (by simp))
      have hminor : (UInt32.ofNat minor).toNat = minor :=
        UInt32.toNat_ofNat_of_lt' (bound_of_mem hnumbers (by simp))
      refine ⟨⟨Text.trim s, .ofNat major, .ofNat minor⟩, parse_eq_ok_iff.mpr ⟨⟨more, ?_⟩, rfl⟩⟩
      rwa [hmajor, hminor]

end Lines

/-- The texts that are host versions are those that spell one; any other text comes back in the
error as it is. The line of a version spells its first two numbers, and two versions have the same
line exactly if those numbers are equal, however they are spelled. A line is itself a version, of
that line. -/
theorem versions_exactly_spelled (s : String) :
    ((∃ h, parse s = .ok h) ↔ ∃ numbers, Spells s numbers) ∧
    (∀ e, parse s = .error e → e.given = s) ∧
    ∀ h numbers, parse s = .ok h → Spells s numbers →
      (∃ major minor more, numbers = major :: minor :: more ∧
        h.line = toString major ++ "." ++ toString minor) ∧
      (∀ s' h' numbers', parse s' = .ok h' → Spells s' numbers' →
        (h.line = h'.line ↔ numbers.take 2 = numbers'.take 2)) ∧
      ∃ h', parse h.line = .ok h' ∧ h'.line = h.line := by
  refine ⟨exists_parse_iff, fun e => given_of_parse_error, ?_⟩
  intro h numbers hp hs
  obtain ⟨more, rfl⟩ := hs.numbers_eq hp
  refine ⟨⟨_, _, more, rfl, rfl⟩, ?_, ?_⟩
  · intro s' h' numbers' hp' hs'
    obtain ⟨more', rfl⟩ := hs'.numbers_eq hp'
    rw [line_eq_iff]
    simp
  · obtain ⟨h', hp'⟩ := exists_parse_iff.mpr ⟨_, spells_line h⟩
    obtain ⟨more', heq⟩ := (spells_line h).numbers_eq hp'
    simp only [List.cons.injEq] at heq
    exact ⟨h', hp', line_eq_iff.mpr ⟨heq.1.symm, heq.2.1.symm⟩⟩

/-- A marked version with a qualifier, and another one with a sign and zeros. -/
theorem versions_exactly_spelled_padded :
    parse " v0.24.3-SNAPSHOT" = .ok ⟨"v0.24.3-SNAPSHOT", 0, 24⟩ ∧
    Spells " v0.24.3-SNAPSHOT" [0, 24, 3] ∧ parse "+0.024" = .ok ⟨"+0.024", 0, 24⟩ ∧
    Spells "+0.024" [0, 24] ∧
    (line ⟨"v0.24.3-SNAPSHOT", 0, 24⟩ = line ⟨"+0.024", 0, 24⟩ ↔
      [0, 24, 3].take 2 = [0, 24].take 2) := by
  have hp : parse " v0.24.3-SNAPSHOT" = .ok ⟨"v0.24.3-SNAPSHOT", 0, 24⟩ := by decide +kernel
  have hp' : parse "+0.024" = .ok ⟨"+0.024", 0, 24⟩ := by decide +kernel
  have hs : Spells " v0.24.3-SNAPSHOT" [0, 24, 3] := by
    refine ⟨by decide, [' '], ['v'], [['0'], ['2', '4'], ['3']], "-SNAPSHOT".toList, [],
      by decide, by simp [Text.isBlank], by simp, .inr rfl, .inr rfl, ?_⟩
    refine .cons (.bare ⟨by simp, by simp, rfl⟩ (by decide)) ?_
    refine .cons (.bare ⟨by simp, by simp, rfl⟩ (by decide)) ?_
    exact .cons (.bare ⟨by simp, by simp, rfl⟩ (by decide)) .nil
  have hs' : Spells "+0.024" [0, 24] := by
    refine ⟨by decide, [], [], [['+', '0'], ['0', '2', '4']], [], [],
      by decide, by simp, by simp, .inl rfl, .inl rfl, ?_⟩
    refine .cons (.signed ⟨by simp, by simp, rfl⟩ (by decide)) ?_
    exact .cons (.bare ⟨by simp, by simp, rfl⟩ (by decide)) .nil
  exact ⟨hp, hs, hp', hs',
    ((versions_exactly_spelled " v0.24.3-SNAPSHOT").2.2 _ _ hp hs).2.1 _ _ _ hp' hs'⟩

end HostVersion

end PluginResolution
