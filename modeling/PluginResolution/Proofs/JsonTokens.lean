import PluginResolution.Json.Printer
import PluginResolution.Json.Reader

namespace PluginResolution.Json

def Follows (rest : List Char) : Prop :=
  ∀ c, rest.head? = some c → isSpace c = true ∨ c = ',' ∨ c = ']' ∨ c = '\x7d'

theorem char_of_toNat {c : Char} {n : Nat} (h : c.toNat = n) : c = Char.ofNat n := by
  rw [← h, Char.ofNat_toNat]

section Strings

variable {cs rest : List Char} {ps : List Piece}

theorem readPieces_simple {e c : Char} (he : simpleEscape? e = some c)
    (h : readPieces cs = some (ps, rest)) :
    readPieces ('\\' :: e :: cs) = some (.char c :: ps, rest) := by
  have hu : e ≠ 'u' := by
    rintro rfl
    cases he
  rw [readPieces.eq_def]
  split
  · rename_i heq
    cases heq
  · rename_i heq
    cases heq
  · rename_i heq
    cases heq
    exact absurd rfl hu
  · rename_i heq
    cases heq
    rw [he, h]
    rfl
  · rename_i hne heq
    cases heq
    exact absurd rfl (hne e cs rfl)

theorem readPieces_plain {c : Char} (hquote : c ≠ '"') (hback : c ≠ '\\') (hlarge : ¬c.toNat < 32)
    (h : readPieces cs = some (ps, rest)) :
    readPieces (c :: cs) = some (.char c :: ps, rest) := by
  rw [readPieces.eq_def]
  -- it is neither the end of the string nor the beginning of an escape
  split
  · rename_i heq
    cases heq
  · rename_i heq
    cases heq
    exact absurd rfl hquote
  · rename_i heq
    cases heq
    exact absurd rfl hback
  · rename_i heq
    cases heq
    exact absurd rfl hback
  · rename_i heq
    cases heq
    rw [if_neg (by simp [hlarge, hback]), h]
    rfl

/-- The escape of a character without one of its own names its number. -/
theorem readPieces_unit {n : Nat} (hn : n < 32) (h : readPieces cs = some (ps, rest)) :
    readPieces ('\\' :: 'u' :: '0' :: '0' :: Text.hexDigit (n / 16) :: Text.hexDigit (n % 16) :: cs) =
      some (.char (Char.ofNat n) :: ps, rest) := by
  -- there are only as many of them as there are control characters
  have hunit : ∀ n < 32,
      hexUnit? '0' '0' (Text.hexDigit (n / 16)) (Text.hexDigit (n % 16)) = some n := by decide
  have hpiece : Piece.ofUnit n = .char (Char.ofNat n) := by
    rw [Piece.ofUnit, if_neg (by omega), if_neg (by omega)]
  rw [readPieces, hunit n hn, h, ← hpiece]
  rfl

/-- A character is read back from its escape. -/
theorem readPieces_escape (c : Char) (h : readPieces cs = some (ps, rest)) :
    readPieces (escape c ++ cs) = some (.char c :: ps, rest) := by
  -- one case for each character with an escape of its own, then the control characters
  unfold escape
  split
  · rename_i hc
    subst hc
    exact readPieces_simple rfl h
  split
  · rename_i hc
    subst hc
    exact readPieces_simple rfl h
  split
  · rename_i hc
    subst hc
    exact readPieces_simple rfl h
  split
  · rename_i hc
    subst hc
    exact readPieces_simple rfl h
  split
  · rename_i hc
    subst hc
    exact readPieces_simple rfl h
  split
  · rename_i hc
    rw [char_of_toNat hc]
    exact readPieces_simple rfl h
  split
  · rename_i hc
    rw [char_of_toNat hc]
    exact readPieces_simple rfl h
  split
  · rename_i hc
    have hunit := readPieces_unit hc h
    rwa [Char.ofNat_toNat] at hunit
  · rename_i hquote hback _ _ _ _ _ hlarge
    exact readPieces_plain hquote hback hlarge h

theorem readPieces_escaped (l : List Char) (rest : List Char) :
    readPieces (l.flatMap escape ++ '"' :: rest) = some (l.map .char, rest) := by
  induction l with
  | nil => rw [List.flatMap_nil, List.nil_append, readPieces, List.map_nil]
  | cons c l ih =>
    rw [List.flatMap_cons, List.append_assoc, List.map_cons]
    exact readPieces_escape c ih

theorem assemble_chars (l : List Char) : assemble (l.map .char) = some l := by
  induction l with
  | nil => rfl
  | cons c l ih => rw [List.map_cons, assemble, ih, Option.map_some]

/-- A string is read back, the opening quote being already read. -/
theorem readString_quoted (s : String) (rest : List Char) :
    readString (s.toList.flatMap escape ++ '"' :: rest) = some (some s, rest) := by
  simp [readString, readPieces_escaped, assemble_chars]

end Strings

section Numbers

theorem isDigit_iff {c : Char} : Text.isDigit c = c.isDigit := by
  simp only [Text.isDigit, Char.isDigit]
  rfl

theorem toDigits_isDigit {n : Nat} {c : Char} (h : c ∈ Nat.toDigits 10 n) :
    Text.isDigit c = true := by
  rw [isDigit_iff]
  exact Nat.isDigit_of_mem_toDigits (by decide) (by decide) h

theorem toDigits_cons (n : Nat) :
    ∃ c ds, Nat.toDigits 10 n = c :: ds ∧ Text.isDigit c = true := by
  cases hd : Nat.toDigits 10 n with
  | nil => exact absurd hd Nat.toDigits_ne_nil
  | cons c ds => exact ⟨c, ds, rfl, toDigits_isDigit (hd ▸ List.mem_cons_self)⟩

/-- No zero stands in front of a positive number. -/
theorem head_toDigits_ne_zero {n : Nat} (hn : 0 < n) {r : List Char} :
    Nat.toDigits 10 n ≠ '0' :: r := by
  induction n using Nat.strongRecOn generalizing r with
  | ind n ih =>
    intro h
    by_cases hlt : n < 10
    · rw [Nat.toDigits_of_lt_base hlt] at h
      have hchar : ∀ m < 10, 0 < m → m.digitChar ≠ '0' := by decide
      exact hchar n hlt hn (List.cons.inj h).1
    -- a longer number has the first digit of a smaller positive one
    · rw [Nat.toDigits_of_base_le (by decide) (by omega)] at h
      obtain ⟨c, tail, hd, -⟩ := toDigits_cons (n / 10)
      rw [hd, List.cons_append] at h
      have hc : c = '0' := (List.cons.inj h).1
      exact ih (n / 10) (by omega) (by omega) (hc ▸ hd)

theorem digitsValue_toDigits (n : Nat) : digitsValue (Nat.toDigits 10 n) = n :=
  Nat.ofDigitChars_ten_toDigits

theorem isSpace_cases {c : Char} (h : isSpace c = true) :
    c = ' ' ∨ c = '\n' ∨ c = '\t' ∨ c = '\r' := by
  simpa [isSpace, or_assoc] using h

/-- A digit begins nothing but a number. -/
theorem digit_plain {c : Char} (h : Text.isDigit c = true) :
    isSpace c = false ∧ ∀ d ∈ ['n', 't', 'f', '"', '[', '\x7b', ']', '\x7d'], c ≠ d := by
  constructor
  · refine eq_false_of_ne_true fun hs => ?_
    rcases isSpace_cases hs with rfl | rfl | rfl | rfl
    · exact absurd h (by decide)
    · exact absurd h (by decide)
    · exact absurd h (by decide)
    · exact absurd h (by decide)
  · rintro d hd rfl
    have hall : ['n', 't', 'f', '"', '[', '\x7b', ']', '\x7d'].all (!Text.isDigit ·) = true := rfl
    have hc := List.all_eq_true.mp hall c hd
    rw [h] at hc
    cases hc

/-- What may follow a value does not go on with a number. -/
theorem Follows.not_numeric {c : Char} {r : List Char} (h : Follows (c :: r)) :
    Text.isDigit c = false ∧ c ≠ '.' ∧ c ≠ 'e' ∧ c ≠ 'E' := by
  rcases h c rfl with hs | rfl | rfl | rfl
  · rcases isSpace_cases hs with rfl | rfl | rfl | rfl
    · decide
    · decide
    · decide
    · decide
  · decide
  · decide
  · decide

theorem Follows.dropDigits {ds rest : List Char} (h : Follows rest)
    (hd : ∀ c ∈ ds, Text.isDigit c = true) :
    (ds ++ rest).takeWhile Text.isDigit = ds ∧ (ds ++ rest).dropWhile Text.isDigit = rest := by
  rw [List.takeWhile_append_of_pos hd, List.dropWhile_append_of_pos hd]
  cases rest with
  | nil => exact ⟨List.append_nil ds, rfl⟩
  | cons c r =>
    have hc := h.not_numeric.1
    rw [List.takeWhile_cons_of_neg (by simp [hc]), List.dropWhile_cons_of_neg (by simp [hc])]
    exact ⟨List.append_nil ds, rfl⟩

theorem readDigits_toDigits (n : Nat) {rest : List Char} (h : Follows rest) :
    readDigits? (Nat.toDigits 10 n ++ rest) = some (n, rest) := by
  by_cases hn : n = 0
  · subst hn
    rw [Nat.toDigits_zero, List.singleton_append, readDigits?]
    cases rest with
    | nil => rfl
    | cons c r => simp [h.not_numeric.1]
  · obtain ⟨htake, hdrop⟩ := h.dropDigits (fun c hc => toDigits_isDigit (n := n) hc)
    have hpos : 0 < n := Nat.pos_of_ne_zero hn
    have hvalue := digitsValue_toDigits n
    obtain ⟨c, ds, hd, hc⟩ := toDigits_cons n
    have hzero : c ≠ '0' := fun hc => head_toDigits_ne_zero hpos (hc ▸ hd)
    rw [hd, List.cons_append] at htake hdrop ⊢
    rw [hd] at hvalue
    rw [readDigits?]
    · simp only [skipDigits?, List.head?_cons, Option.map_some, hc, Option.getD_some, if_true]
      rw [htake, hdrop, hvalue]
      rfl
    · intro r hr
      exact hzero (List.cons.inj hr).1

/-- A number is read back as a natural one. -/
theorem readNumber_toDigits (n : Nat) {rest : List Char} (h : Follows rest) :
    readNumber (Nat.toDigits 10 n ++ rest) = some (.natural n, rest) := by
  have hfraction : skipFraction? rest = some rest := by
    cases rest with
    | nil => rfl
    | cons c r =>
      rw [skipFraction?]
      intro r' hr
      exact h.not_numeric.2.1 (List.cons.inj hr).1
  have hexponent : skipExponent? rest = some rest := by
    cases rest with
    | nil => rfl
    | cons c r =>
      obtain ⟨-, -, he, hE⟩ := h.not_numeric
      simp [skipExponent?, he, hE]
  have hread := readDigits_toDigits n h
  -- the reader looks for a sign first
  have hsign : ∀ r, Nat.toDigits 10 n ++ rest ≠ '-' :: r := by
    intro r hr
    obtain ⟨c, ds, hd, hc⟩ := toDigits_cons n
    rw [hd] at hr
    obtain rfl : c = '-' := (List.cons.inj hr).1
    exact absurd hc (by decide)
  rw [readNumber, hread]
  · simp [hfraction, hexponent]
  · exact hsign

end Numbers

end PluginResolution.Json
