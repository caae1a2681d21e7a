import PluginResolution.Yaml.Value.Basic

/-!
Documents in block style: mappings whose keys stand on lines of their own, with a word behind each
or with a mapping further to the right below it. Words are written without quotes.
-/
namespace PluginResolution.Yaml

def isNameChar (c : Char) : Bool :=
  c.isAlphanum || c == '.' || c == '-' || c == '_'

structure IsName (cs : List Char) : Prop where
  begins : ∃ c r, cs = c :: r ∧ c.isAlphanum = true
  chars : ∀ c ∈ cs, isNameChar c = true

theorem isName_iff {cs : List Char} :
    IsName cs ↔ (cs.head?.any Char.isAlphanum && cs.all isNameChar) = true := by
  rw [Bool.and_eq_true, List.all_eq_true]
  constructor
  · rintro ⟨⟨c, r, rfl, hc⟩, hchars⟩
    exact ⟨hc, hchars⟩
  · rintro ⟨hhead, hchars⟩
    cases cs with
    | nil => cases hhead
    | cons c r => exact ⟨⟨c, r, rfl, hhead⟩, hchars⟩

instance (cs : List Char) : Decidable (IsName cs) :=
  decidable_of_iff _ isName_iff.symm

/-- A name, or a symbol, which is a name with a colon in front. -/
def IsWord (cs : List Char) : Prop :=
  IsName cs ∨ ∃ name, cs = ':' :: name ∧ IsName name

theorem isWord_iff {cs : List Char} :
    IsWord cs ↔ IsName cs ∨ (cs.head? = some ':' ∧ IsName cs.tail) := by
  refine or_congr_right ⟨?_, ?_⟩
  · rintro ⟨name, rfl, hname⟩
    exact ⟨rfl, hname⟩
  · rintro ⟨hhead, hname⟩
    cases cs with
    | nil => cases hhead
    | cons c name =>
      cases hhead
      exact ⟨name, rfl, hname⟩

instance (cs : List Char) : Decidable (IsWord cs) :=
  decidable_of_iff _ isWord_iff.symm

/-- The entries of a mapping. A key has a word as its value, or a mapping, which may have no
entries. -/
inductive Outline where
  | nothing
  | word (key text : String) (rest : Outline)
  | block (key : String) (inner rest : Outline)
  deriving DecidableEq, Repr

namespace Outline

/-- The lines of the entries, which begin at a column; every mapping in them begins by one and
`indent` further columns to the right. -/
def lines (indent column : Nat) : Outline → List Char
  | nothing => []
  | word key text rest =>
    List.replicate column ' ' ++ (key.toList ++ ':' :: ' ' :: (text.toList ++
      '\n' :: rest.lines indent column))
  | block key inner rest =>
    List.replicate column ' ' ++ (key.toList ++ ':' :: '\n' ::
      (inner.lines indent (column + indent + 1) ++ rest.lines indent column))

def document (indent : Nat) (o : Outline) : String :=
  String.ofList (o.lines indent 0)

def Spelled : Outline → Prop
  | nothing => True
  | word key text rest => IsWord key.toList ∧ IsWord text.toList ∧ rest.Spelled
  | block key inner rest => IsWord key.toList ∧ inner.Spelled ∧ rest.Spelled

instance decidableSpelled : (o : Outline) → Decidable o.Spelled
  | nothing => inferInstanceAs (Decidable True)
  | word key text rest =>
    have := decidableSpelled rest
    inferInstanceAs (Decidable (IsWord key.toList ∧ IsWord text.toList ∧ rest.Spelled))
  | block key inner rest =>
    have := decidableSpelled inner
    have := decidableSpelled rest
    inferInstanceAs (Decidable (IsWord key.toList ∧ inner.Spelled ∧ rest.Spelled))

end Outline

/-! ## Characters -/

def isInk (c : Char) : Bool :=
  isNameChar c || c == ':'

theorem isAlphanum_bounds {c : Char} (h : c.isAlphanum = true) : 48 ≤ c.toNat ∧ c.toNat ≤ 122 := by
  -- letters and digits lie in three ranges of code points
  have hclass : c.isAlphanum = (decide (65 ≤ c.toNat ∧ c.toNat ≤ 90) ||
      (decide (97 ≤ c.toNat) && decide (c.toNat ≤ 122)) ||
      (decide (48 ≤ c.toNat) && decide (c.toNat ≤ 57))) := rfl
  rw [hclass] at h
  simp only [Bool.or_eq_true, Bool.and_eq_true, decide_eq_true_eq] at h
  omega

theorem isInk_of_isAlphanum {c : Char} (h : c.isAlphanum = true) : isInk c = true := by
  simp [isInk, isNameChar, h]

/-- They are printable, and none stands before the hyphen. -/
theorem isInk_bounds {c : Char} (h : isInk c = true) : 45 ≤ c.toNat ∧ c.toNat ≤ 122 := by
  simp only [isInk, isNameChar, Bool.or_eq_true, beq_iff_eq] at h
  rcases h with (((h | rfl) | rfl) | rfl) | rfl
  · have hb := isAlphanum_bounds h
    omega
  · decide
  · decide
  · decide
  · decide

theorem isAllowed_of_isInk {c : Char} (h : isInk c = true) : isAllowed c = true := by
  obtain ⟨hlow, hhigh⟩ := isInk_bounds h
  have hprint : (decide (0x20 ≤ c.toNat) && decide (c.toNat ≤ 0x7E)) = true := by
    simp only [Bool.and_eq_true, decide_eq_true_eq]
    omega
  simp only [isAllowed, hprint, Bool.or_true, Bool.true_or]

theorem isBlank_of_isInk {c : Char} (h : isInk c = true) : isBlank c = false := by
  apply Bool.eq_false_iff.mpr
  intro hb
  simp only [isBlank, Bool.or_eq_true, beq_iff_eq] at hb
  rcases hb with rfl | rfl
  · exact absurd h (by decide)
  · exact absurd h (by decide)

theorem isBreak_of_isInk {c : Char} (h : isInk c = true) : isBreak c = false := by
  obtain ⟨hlow, hhigh⟩ := isInk_bounds h
  simp only [isBreak, Bool.or_eq_false_iff, beq_eq_false_iff_ne]
  omega

/-! ## Words -/

theorem IsWord.ink {cs : List Char} (h : IsWord cs) : ∀ c ∈ cs, isInk c = true := by
  have hname {name : List Char} (hn : IsName name) : ∀ c ∈ name, isInk c = true := by
    intro c hc
    rw [isInk, hn.chars c hc, Bool.true_or]
  rcases h with h | ⟨name, rfl, h⟩
  · exact hname h
  · intro c hc
    rcases List.mem_cons.mp hc with rfl | hc
    · rfl
    · exact hname h c hc

/-- A word begins with a letter or a digit, perhaps with a colon in front. -/
theorem IsWord.begins {cs : List Char} (h : IsWord cs) :
    ∃ c r, cs = c :: r ∧ isInk c = true ∧
      (c.isAlphanum = true ∨ c = ':' ∧ ∃ d r', r = d :: r' ∧ c ≠ d ∧ isInk d = true) := by
  rcases h with ⟨⟨c, r, hcs, hc⟩, -⟩ | ⟨name, rfl, ⟨d, r, rfl, hd⟩, -⟩
  · exact ⟨c, r, hcs, isInk_of_isAlphanum hc, .inl hc⟩
  · refine ⟨':', d :: r, rfl, rfl, .inr ⟨rfl, d, r, rfl, ?_, isInk_of_isAlphanum hd⟩⟩
    rintro rfl
    exact absurd hd (by decide)

theorem plainWord_name {name rest : List Char} (hn : ∀ c ∈ name, isNameChar c = true)
    (hrest : Token.plainWord false rest = some []) :
    Token.plainWord false (name ++ rest) = some name := by
  induction name with
  | nil => exact hrest
  | cons c r ih =>
    have hc := hn c List.mem_cons_self
    have hink : isInk c = true := by rw [isInk, hc, Bool.true_or]
    have hcolon : (c == ':') = false := by
      apply beq_eq_false_iff_ne.mpr
      rintro rfl
      exact absurd hc (by decide)
    have hr := ih fun d hd => hn d (List.mem_cons_of_mem c hd)
    simp only [List.cons_append, Token.plainWord, isBlank_of_isInk hink, isBreak_of_isInk hink,
      hcolon, hr, Bool.or_self, Bool.false_and, Bool.false_eq_true, if_false, Option.map_some]

/-- A word is read as a whole, up to where no word goes on. -/
theorem plainWord_word {cs rest : List Char} (h : IsWord cs)
    (hrest : Token.plainWord false rest = some []) :
    Token.plainWord false (cs ++ rest) = some cs := by
  rcases h with h | ⟨name, rfl, h⟩
  · exact plainWord_name h.chars hrest
  · obtain ⟨⟨d, r, hd, hdigit⟩, hchars⟩ := h
    have hink := isInk_of_isAlphanum hdigit
    have hname := plainWord_name hchars hrest
    -- the colon in front has no blank behind it
    have hends : Token.endsWord (name ++ rest) = false := by
      rw [hd, List.cons_append, Token.endsWord, isBlank_of_isInk hink, isBreak_of_isInk hink]
      rfl
    have hblank : isBlank ':' = false := by decide
    have hbreak : isBreak ':' = false := by decide
    simp only [List.cons_append, Token.plainWord, hblank, hbreak, hends, hname, Bool.or_self,
      Bool.false_and, Bool.and_false, Bool.false_eq_true, if_false, Option.map_some]

theorem plainWord_break (rest : List Char) : Token.plainWord false ('\n' :: rest) = some [] :=
  rfl

theorem plainWord_colon {rest : List Char} (h : Token.endsWord rest = true) :
    Token.plainWord false (':' :: rest) = some [] := by
  have hblank : isBlank ':' = false := by decide
  have hbreak : isBreak ':' = false := by decide
  simp only [Token.plainWord, hblank, hbreak, h, Bool.or_self, Bool.false_and, Bool.false_eq_true,
    beq_self_eq_true, Bool.and_self, if_false, if_true]

/-! ## Lines -/

namespace Outline

variable {indent column : Nat} {o : Outline}

/-- A document in block style has no character that is not allowed. -/
theorem allowed_lines (h : o.Spelled) : ∀ c ∈ o.lines indent column, isAllowed c = true := by
  have hword {s : String} (hs : IsWord s.toList) : ∀ c ∈ s.toList, isAllowed c = true :=
    fun c hc => isAllowed_of_isInk (hs.ink c hc)
  have hspace : ∀ n, ∀ c ∈ List.replicate n ' ', isAllowed c = true := by
    intro n c hc
    rw [List.eq_of_mem_replicate hc]
    rfl
  induction o generalizing column with
  | nothing => exact fun c hc => by cases hc
  | word key text rest ih =>
    obtain ⟨hkey, htext, hrest⟩ := h
    intro c hc
    simp only [lines, List.mem_append, List.mem_cons] at hc
    rcases hc with hc | hc | rfl | rfl | hc | rfl | hc
    · exact hspace _ c hc
    · exact hword hkey c hc
    · rfl
    · rfl
    · exact hword htext c hc
    · rfl
    · exact ih hrest c hc
  | block key inner rest ihInner ihRest =>
    obtain ⟨hkey, hinner, hrest⟩ := h
    intro c hc
    simp only [lines, List.mem_append, List.mem_cons] at hc
    rcases hc with hc | hc | rfl | rfl | hc | hc
    · exact hspace _ c hc
    · exact hword hkey c hc
    · rfl
    · rfl
    · exact ihInner hinner c hc
    · exact ihRest hrest c hc

end Outline

end PluginResolution.Yaml
