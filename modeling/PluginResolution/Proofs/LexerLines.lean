import PluginResolution.Proofs.BlockOutline

namespace PluginResolution.Yaml

def indentOf (text : List Char) : Nat :=
  (text.takeWhile (· == ' ')).length

def behindIndent (text : List Char) : List Char :=
  text.dropWhile (· == ' ')

theorem indentOf_spaces (n : Nat) {c : Char} (hc : c ≠ ' ') (r : List Char) :
    indentOf (List.replicate n ' ' ++ c :: r) = n := by
  have hstop : (c == ' ') = false := by simpa using hc
  induction n with
  | zero => simp [indentOf, hstop]
  | succ n ih => simpa [indentOf, List.replicate_succ] using ih

theorem behindIndent_spaces (n : Nat) {c : Char} (hc : c ≠ ' ') (r : List Char) :
    behindIndent (List.replicate n ' ' ++ c :: r) = c :: r := by
  have hstop : (c == ' ') = false := by simpa using hc
  induction n with
  | zero => simp [behindIndent, hstop]
  | succ n ih => simpa [behindIndent, List.replicate_succ] using ih

theorem drop_indentOf (text : List Char) : text.drop (indentOf text) = behindIndent text := by
  induction text with
  | nil => rfl
  | cons c r ih =>
    cases hc : c == ' ' with
    | true => simpa [indentOf, behindIndent, hc] using ih
    | false => simp [indentOf, behindIndent, hc]

def Begins (text : List Char) : Prop :=
  ∀ c ∈ (behindIndent text).head?, isInk c = true

theorem ne_of_isInk {c d : Char} (h : isInk c = true) (hd : isInk d = false) : c ≠ d := by
  rintro rfl
  rw [h] at hd
  cases hd

namespace Cursor

@[simp] theorem skip_zero (c : Cursor) : c.skip 0 = c := rfl

theorem sees_of_isInk {c : Cursor} (h : ∀ d ∈ c.rest.head?, isInk d = true) (ch : Char)
    (hch : isInk ch = false) : c.sees ch = false := by
  rw [sees]
  cases hr : c.rest.head? with
  | none => rfl
  | some d => simpa using ne_of_isInk (h d hr) hch

theorem atBreak_of_isInk {c : Cursor} (h : ∀ d ∈ c.rest.head?, isInk d = true) :
    c.atBreak = false := by
  rw [atBreak, seesThat]
  cases hr : c.rest.head? with
  | none => rfl
  | some d => exact isBreak_of_isInk (h d hr)

theorem atBlank_of_isInk {c : Cursor} (h : ∀ d ∈ c.rest.head?, isInk d = true) :
    c.atBlank = false := by
  rw [atBlank, seesThat]
  cases hr : c.rest.head? with
  | none => rfl
  | some d => exact isBlank_of_isInk (h d hr)

theorem takeWhile_of_isInk {r : List Char} (h : ∀ d ∈ r.head?, isInk d = true) {p : Char → Bool}
    (hp : ∀ d, isInk d = true → p d = false) : r.takeWhile p = [] := by
  cases r with
  | nil => rfl
  | cons d r =>
    have hd := hp d (h d rfl)
    rw [List.takeWhile_cons, hd]
    rfl

theorem skipWhile_of_isInk {c : Cursor} (h : ∀ d ∈ c.rest.head?, isInk d = true)
    {p : Char → Bool} (hp : ∀ d, isInk d = true → p d = false) : c.skipWhile p = c := by
  rw [skipWhile, takeWhile_of_isInk h hp]
  exact skip_zero c

theorem skipWhile_space {c : Cursor} {r : List Char} (hr : c.rest = ' ' :: r)
    (h : ∀ d ∈ r.head?, isInk d = true) {p : Char → Bool} (hspace : p ' ' = true)
    (hp : ∀ d, isInk d = true → p d = false) : c.skipWhile p = c.skip 1 := by
  rw [skipWhile, hr, List.takeWhile_cons, hspace, if_pos rfl, takeWhile_of_isInk h hp]
  rfl

end Cursor

namespace Lexer

/-- At the beginning of a line, behind its indentation, outside of brackets. -/
def atLine (text : List Char) (index line : Nat) (tokens : List Token) (level : Nat)
    (outer : List Nat) : Lexer where
  cursor := { rest := behindIndent text, index, line, column := indentOf text }
  tokens
  level
  outer

def inLine (c : Cursor) (tokens : List Token) (level : Nat) (outer : List Nat) : Lexer where
  cursor := c
  tokens
  level
  outer
  keyAllowed := false

def isSkipped (l : Lexer) (c : Char) : Bool :=
  c == ' ' || ((l.inFlow || !l.keyAllowed) && c == '\t')

theorem isSkipped_of_isInk (l : Lexer) {c : Char} (h : isInk c = true) : l.isSkipped c = false := by
  have hspace : c ≠ ' ' := ne_of_isInk h (by decide)
  have htab : c ≠ '\t' := ne_of_isInk h (by decide)
  simp [isSkipped, hspace, htab]

/-- Behind some blanks a word begins, or the text ends. -/
theorem skipSpace_to (n : Nat) {l : Lexer} {c : Cursor}
    (hmark : (l.cursor.index == 0 && l.cursor.sees '\ufeff') = false)
    (hskip : l.cursor.skipWhile l.isSkipped = c) (h : ∀ d ∈ c.rest.head?, isInk d = true) :
    skipSpace (n + 1) l = { l with cursor := c } := by
  have hhash := Cursor.sees_of_isInk h '#' (by decide)
  have hbreak := Cursor.atBreak_of_isInk h
  unfold isSkipped at hskip
  simp only [skipSpace, hmark, Bool.false_eq_true, if_false, hskip, hhash, hbreak]

theorem skipSpace_still (n : Nat) {l : Lexer} (h : ∀ c ∈ l.cursor.rest.head?, isInk c = true) :
    skipSpace (n + 1) l = l := by
  have hmark := Cursor.sees_of_isInk h '\ufeff' (by decide)
  have hskip := Cursor.skipWhile_of_isInk h fun _ hd => l.isSkipped_of_isInk hd
  exact skipSpace_to n (by rw [hmark, Bool.and_false]) hskip h

theorem skipSpace_over (n : Nat) {l : Lexer} {c : Cursor}
    (hmark : (l.cursor.index == 0 && l.cursor.sees '\ufeff') = false)
    (hskip : l.cursor.skipWhile l.isSkipped = c) (hhash : c.sees '#' = false)
    (hbreak : c.atBreak = true) :
    skipSpace (n + 1) l =
      skipSpace n { l with cursor := c.skipBreak, keyAllowed := l.keyAllowed || !l.inFlow } := by
  unfold isSkipped at hskip
  simp only [skipSpace, hmark, Bool.false_eq_true, if_false, hskip, hhash, hbreak, if_true]

/-- A line break and the indentation behind it are stepped over. -/
theorem skipSpace_break {text : List Char} (h : Begins text) (n index line column : Nat)
    (tokens : List Token) (level : Nat) (outer : List Nat) :
    skipSpace (n + 2) (inLine ⟨'\n' :: text, index, line, column⟩ tokens level outer) =
      atLine text (index + 1 + indentOf text) (line + 1) tokens level outer := by
  -- the break allows keys again, and from there only spaces are skipped
  let l := inLine ⟨'\n' :: text, index, line, column⟩ tokens level outer
  let next : Lexer := { cursor := ⟨text, index + 1, line + 1, 0⟩, tokens, level, outer }
  have hmark : (l.cursor.index == 0 && l.cursor.sees '\ufeff') = false := Bool.and_false _
  have hnone : l.cursor.skipWhile l.isSkipped = l.cursor := rfl
  have hnext : { l with cursor := l.cursor.skipBreak, keyAllowed := l.keyAllowed || !l.inFlow } =
      next := rfl
  have hbroken := skipSpace_over (n + 1) hmark hnone rfl rfl
  have hp : next.isSkipped = (· == ' ') := by
    funext ch
    exact Bool.or_false _
  have hskip : next.cursor.skipWhile next.isSkipped =
      ⟨behindIndent text, index + 1 + indentOf text, line + 1, indentOf text⟩ := by
    rw [hp, Cursor.skipWhile, Cursor.skip, ← drop_indentOf, indentOf]
    simp only [next, Nat.zero_add]
  rw [hbroken, hnext]
  exact skipSpace_to n rfl hskip h

end Lexer

namespace Token

/-- The gap behind a word that ends its line reaches to the next word. -/
theorem readGap_indent {text : List Char} (h : Begins text) (column : Nat) {g : Gap}
    (hg : g.broken = true) {fuel : Nat} (hfuel : text.length < fuel) (index line k : Nat) :
    readGap column fuel g ⟨text, index, line, k⟩ =
      some (g, ⟨behindIndent text, index + indentOf text, line, k + indentOf text⟩) := by
  -- every blank of the indentation takes one step of the fuel
  induction text generalizing fuel index k with
  | nil =>
    obtain ⟨fuel, rfl⟩ := Nat.exists_eq_succ_of_ne_zero (Nat.ne_of_gt hfuel)
    rfl
  | cons c r ih =>
    obtain ⟨fuel, rfl⟩ := Nat.exists_eq_succ_of_ne_zero (Nat.ne_of_gt (Nat.zero_lt_of_lt hfuel))
    have hr : r.length < fuel := Nat.lt_of_succ_lt_succ hfuel
    cases hc : c == ' ' with
    | true =>
      obtain rfl : c = ' ' := by simpa using hc
      -- a tab would be refused here, but the blank is a space
      have hnext := ih h hr (index + 1) (k + 1)
      have hindent : indentOf (' ' :: r) = indentOf r + 1 := rfl
      have hbehind : behindIndent (' ' :: r) = behindIndent r := rfl
      have hblank : Cursor.atBlank ⟨' ' :: r, index, line, k⟩ = true := rfl
      have htab : Cursor.sees ⟨' ' :: r, index, line, k⟩ '\t' = false := rfl
      have hskip : Cursor.skip ⟨' ' :: r, index, line, k⟩ 1 = ⟨r, index + 1, line, k + 1⟩ := rfl
      rw [readGap]
      simp only [hblank, hg, htab, hskip, hnext, Bool.and_false, Bool.false_eq_true, if_false,
        if_true]
      rw [hindent, hbehind, Nat.add_assoc, Nat.add_comm 1, Nat.add_assoc k, Nat.add_comm 1]
    | false =>
      have hbehind : behindIndent (c :: r) = c :: r := by simp [behindIndent, hc]
      have hindent : indentOf (c :: r) = 0 := by simp [indentOf, hc]
      have hink : ∀ d ∈ (c :: r).head?, isInk d = true := hbehind ▸ h
      have hblank := Cursor.atBlank_of_isInk (c := ⟨c :: r, index, line, k⟩) hink
      have hbreak := Cursor.atBreak_of_isInk (c := ⟨c :: r, index, line, k⟩) hink
      rw [readGap]
      simp only [hblank, hbreak, Bool.false_eq_true, if_false, hbehind, hindent, Nat.add_zero]

/-- A gap that begins with the end of a line. -/
theorem readGap_break {text : List Char} (h : Begins text) (column index line k : Nat) :
    readGap column (text.length + 1 + 1) {} ⟨'\n' :: text, index, line, k⟩ =
      some ({ broken := true, firstBreak := ['\n'] },
        ⟨behindIndent text, index + 1 + indentOf text, line + 1, indentOf text⟩) := by
  have hnext : readGap column (text.length + 1 + 1) {} ⟨'\n' :: text, index, line, k⟩ =
      readGap column (text.length + 1) { broken := true, firstBreak := ['\n'] }
        ⟨text, index + 1, line + 1, 0⟩ := rfl
  rw [hnext, readGap_indent h column rfl (Nat.lt_succ_self text.length), Nat.zero_add]

end Token

/-- It is no line that ends a document, as that begins with a hyphen or a point. -/
theorem atDocumentMark_word {cs r : List Char} (h : IsWord cs) {c : Cursor}
    (hr : c.rest = cs ++ r) : c.atDocumentMark = false := by
  obtain ⟨ch, tail, rfl, -, hfirst⟩ := h.begins
  have hne {d : Char} (hd : d.isAlphanum = false) (hcolon : d ≠ ':') : ch ≠ d := by
    rintro rfl
    rcases hfirst with halnum | ⟨rfl, -⟩
    · rw [hd] at halnum
      cases halnum
    · exact hcolon rfl
  have hhyphen : ch ≠ '-' := hne (by decide) (by decide)
  have hpoint : ch ≠ '.' := hne (by decide) (by decide)
  simp [Cursor.atDocumentMark, hr, hhyphen, hpoint]

namespace Token

variable {cs : List Char} {column : Nat} {c : Cursor}

theorem word_ne_nil (h : IsWord cs) : cs.isEmpty = false := by
  obtain ⟨ch, tail, rfl, -⟩ := h.begins
  rfl

theorem head_of_word (h : IsWord cs) {r : List Char} :
    ∀ d ∈ (cs ++ r).head?, isInk d = true := by
  obtain ⟨ch, tail, rfl, hink, -⟩ := h.begins
  intro d hd
  obtain rfl := Option.some.inj hd
  exact hink

/-- A word with a colon behind it is read up to the colon. -/
theorem readPlain_key (h : IsWord cs) {r : List Char} (hr : c.rest = cs ++ ':' :: r)
    (hends : endsWord r = true) :
    readPlain false column c = some ⟨cs, false, c.skip cs.length⟩ := by
  have hmark := atDocumentMark_word h hr
  have hhead : ∀ d ∈ c.rest.head?, isInk d = true := hr ▸ head_of_word h
  have hhash := Cursor.sees_of_isInk hhead '#' (by decide)
  have hword := plainWord_word h (plainWord_colon hends)
  have hbehind : (c.skip cs.length).rest = ':' :: r := by
    rw [Cursor.skip, hr]
    exact List.drop_left
  have hcolon : ∀ d ∈ (c.skip cs.length).rest.head?, isInk d = true := by
    rw [hbehind]
    intro d hd
    obtain rfl := Option.some.inj hd
    rfl
  have hblank := Cursor.atBlank_of_isInk hcolon
  have hbreak := Cursor.atBreak_of_isInk hcolon
  rw [readPlain, readPlainFrom]
  simp only [hmark, hhash, Bool.or_self, Bool.false_eq_true, if_false, hr, hword, word_ne_nil h,
    hblank, hbreak, Option.bind_eq_bind, Option.bind_some, Gap.text]
  rfl

/-- A word at the end of its line is read together with the indentation of the next line, which does
not go on with it. -/
theorem readPlain_value (h : IsWord cs) {text : List Char} (hr : c.rest = cs ++ '\n' :: text)
    (hbegins : Begins text) (hleft : indentOf text < column) :
    readPlain false column c = some ⟨cs, true, ⟨behindIndent text,
      c.index + cs.length + 1 + indentOf text, c.line + 1, indentOf text⟩⟩ := by
  have hmark := atDocumentMark_word h hr
  have hhead : ∀ d ∈ c.rest.head?, isInk d = true := hr ▸ head_of_word h
  have hhash := Cursor.sees_of_isInk hhead '#' (by decide)
  have hword := plainWord_word h (plainWord_break text)
  have hbehind : c.skip cs.length = ⟨'\n' :: text, c.index + cs.length, c.line,
      c.column + cs.length⟩ := by
    rw [Cursor.skip, hr, List.drop_left]
  have hgap := readGap_break hbegins column (c.index + cs.length) c.line (c.column + cs.length)
  have hblank : Cursor.atBlank ⟨'\n' :: text, c.index + cs.length, c.line,
      c.column + cs.length⟩ = false := rfl
  have hbreak : Cursor.atBreak ⟨'\n' :: text, c.index + cs.length, c.line,
      c.column + cs.length⟩ = true := rfl
  -- the next line begins too far to the left to go on with the word
  rw [readPlain, readPlainFrom]
  simp only [hmark, hhash, Bool.or_self, Bool.false_eq_true, if_false, hr, hword, word_ne_nil h,
    hbehind, hblank, hbreak, Option.bind_eq_bind, Option.bind_some, Gap.text, List.length_cons,
    Bool.or_true, if_true, hgap, Bool.not_false, Bool.true_and, decide_eq_true hleft]
  rfl

end Token

namespace Lexer

variable {l : Lexer} {cs r : List Char}

/-- No other kind of token begins as a word does. -/
theorem takeToken_word (hflow : l.inFlow = false) (h : IsWord cs) (hr : l.cursor.rest = cs ++ r) :
    ∃ ch, l.cursor.peek? = some ch ∧ l.takeToken ch = l.takePlain := by
  have hmark := atDocumentMark_word h hr
  obtain ⟨ch, tail, rfl, hink, hfirst⟩ := h.begins
  refine ⟨ch, by rw [Cursor.peek?, hr]; rfl, ?_⟩
  rcases hfirst with halnum | ⟨rfl, d, tail, rfl, hne, hd⟩
  · have hother {d : Char} (hd : d.isAlphanum = false) : (ch == d) = false := by
      apply beq_eq_false_iff_ne.mpr
      rintro rfl
      rw [hd] at halnum
      cases halnum
    have hsign : ",[]\x7b\x7d#&*!|>'\"%@\x60".toList.contains ch = false := by
      apply Bool.eq_false_iff.mpr
      intro hmem
      have hall : (",[]\x7b\x7d#&*!|>'\"%@\x60".toList.all fun d => !d.isAlphanum) = true := by
        decide
      have hnot := List.all_eq_true.mp hall ch (List.contains_iff_mem.mp hmem)
      rw [halnum] at hnot
      cases hnot
    have hbegins : l.beginsPlain ch = true := by
      simp only [beginsPlain, hother (d := '-') (by decide), hother (d := '?') (by decide),
        hother (d := ':') (by decide), isBlank_of_isInk hink, isBreak_of_isInk hink, hsign,
        Bool.or_self, Bool.false_eq_true, if_false, Bool.not_false, Bool.and_self]
    simp only [takeToken, hmark, hbegins, hother (d := '%') (by decide),
      hother (d := '[') (by decide), hother (d := '\x7b') (by decide),
      hother (d := ']') (by decide), hother (d := '\x7d') (by decide),
      hother (d := ',') (by decide), hother (d := '-') (by decide), hother (d := '?') (by decide),
      hother (d := ':') (by decide), hother (d := '*') (by decide), hother (d := '&') (by decide),
      hother (d := '!') (by decide), hother (d := '|') (by decide), hother (d := '>') (by decide),
      hother (d := '\'') (by decide), hother (d := '"') (by decide), Bool.and_false, Bool.false_and,
      Bool.false_eq_true, if_false, if_true]
  -- a colon in front has no blank behind it
  · have hspaced : l.cursor.spacedAt 1 = false := by
      rw [Cursor.spacedAt, hr]
      simp only [List.cons_append, List.getElem?_cons_succ, List.getElem?_cons_zero,
        isBlank_of_isInk hd, isBreak_of_isInk hd, Bool.or_self]
    have hbegins : l.beginsPlain ':' = true := by
      simp [beginsPlain, hflow, hspaced]
    simp [takeToken, hmark, hbegins, hflow, hspaced]

/-- A colon with a blank or the end of the line behind it ends a key. -/
theorem takeToken_colon (hr : l.cursor.rest = ':' :: r) (hends : Token.endsWord r = true) :
    l.takeToken ':' = l.takeValue := by
  have hmark : l.cursor.atDocumentMark = false := by
    simp [Cursor.atDocumentMark, hr]
  have hspaced : l.cursor.spacedAt 1 = true := by
    rw [Cursor.spacedAt, hr]
    cases r with
    | nil => rfl
    | cons c r => exact hends
  simp [takeToken, hmark, hspaced]

theorem closeBlocks_of_le {limit : Nat} (h : l.level ≤ limit) : l.closeBlocks limit = l := by
  have hnot : ¬limit < l.level := Nat.not_lt.mpr h
  rw [closeBlocks]
  split
  · rfl
  · cases l.outer with
    | nil => rfl
    | cons outer rest => rw [closeFrom, if_neg hnot]

/-- One token is taken where no block ends. -/
theorem run_token (fuel : Nat) {m : Lexer} {ch : Char}
    (hskip : (skipSpace (l.cursor.rest.length + 1) l).dropStale = some m)
    (hlevel : m.level ≤ m.cursor.column + 1) (hpeek : m.cursor.peek? = some ch) :
    run (fuel + 1) l = (m.takeToken ch).bind (run fuel) := by
  rw [run, hskip, Option.bind_eq_bind, Option.bind_some]
  simp only [closeBlocks_of_le hlevel, hpeek]

theorem takePlain_saved {m : Lexer} {plain : Token.Plain} (hsave : l.saveCandidate = some m)
    (hread : Token.readPlain m.inFlow m.level m.cursor = some plain) :
    l.takePlain = some { m.takeTo (.scalar true (String.ofList plain.text)) plain.after with
      keyAllowed := plain.broken } := by
  rw [takePlain, hsave, Option.bind_eq_bind, Option.bind_some, hread]
  rfl

theorem dropStale_none (hc : l.candidate = none) (ha : l.around = []) : l.dropStale = some l := by
  obtain ⟨cursor, tokens, level, outer, keyAllowed, candidate, around⟩ := l
  obtain rfl : candidate = none := hc
  obtain rfl : around = [] := ha
  rfl

/-- The candidate of a block goes when it is stale, unless it has to be a key. -/
theorem dropStale_some {k : Candidate} (hc : l.candidate = some k) (ha : l.around = []) :
    l.dropStale = if Candidate.isStale k l.cursor then if k.required then none else
      some { l with candidate := none } else some l := by
  obtain ⟨cursor, tokens, level, outer, keyAllowed, candidate, around⟩ := l
  obtain rfl : candidate = some k := hc
  obtain rfl : around = [] := ha
  rw [dropStale]
  simp only [refresh?]
  cases Candidate.isStale k cursor with
  | false => rfl
  | true =>
    cases k.required with
    | false => rfl
    | true => rfl

section Key

variable {text : List Char} {level : Nat}

def behindKey (key : List Char) (text : List Char) (index line : Nat) (tokens : List Token)
    (level : Nat) (outer : List Nat) : Lexer where
  cursor := (atLine text index line tokens level outer).cursor.skip key.length
  tokens := .scalar true (String.ofList key) :: tokens
  level
  outer
  keyAllowed := false
  candidate := some {
    place := tokens.length
    index
    line
    column := indentOf text
    required := level == indentOf text + 1 }

theorem run_first (fuel : Nat) (h : IsWord cs) (hr : behindIndent text = cs ++ ':' :: r)
    (hends : Token.endsWord r = true) (hlevel : level ≤ indentOf text + 1) (index line : Nat)
    (tokens : List Token) (outer : List Nat) :
    run (fuel + 1) (atLine text index line tokens level outer) =
      run fuel (behindKey cs text index line tokens level outer) := by
  let l := atLine text index line tokens level outer
  have hhead : ∀ d ∈ l.cursor.rest.head?, isInk d = true := by
    intro d hd
    have hrest : l.cursor.rest = cs ++ ':' :: r := hr
    rw [hrest] at hd
    exact Token.head_of_word h d hd
  obtain ⟨ch, hpeek, htake⟩ := takeToken_word (l := l) rfl h hr
  have hskip : (skipSpace (l.cursor.rest.length + 1) l).dropStale = some l := by
    rw [skipSpace_still _ hhead]
    exact dropStale_none rfl rfl
  have hplain : Token.readPlain l.inFlow l.level l.cursor =
      some ⟨cs, false, l.cursor.skip cs.length⟩ := Token.readPlain_key h hr hends
  have hsave : l.saveCandidate = some { l with candidate :=
      (behindKey cs text index line tokens level outer).candidate } := rfl
  have htaken : l.takePlain = some (behindKey cs text index line tokens level outer) :=
    takePlain_saved hsave hplain
  rw [run_token fuel hskip hlevel hpeek, htake, htaken, Option.bind_some]

/-- The tokens and the blocks once a key at the column has its colon. It opens a mapping if none is
open there. -/
def openedTokens (column level : Nat) (tokens : List Token) : List Token :=
  if column < level then tokens else .blockMappingStart :: tokens

def openedOuter (column level : Nat) (outer : List Nat) : List Nat :=
  if column < level then outer else level :: outer

theorem openedTokens_open (column : Nat) (tokens : List Token) :
    openedTokens column (column + 1) tokens = tokens :=
  if_pos (Nat.lt_succ_self column)

theorem openedOuter_open (column : Nat) (outer : List Nat) :
    openedOuter column (column + 1) outer = outer :=
  if_pos (Nat.lt_succ_self column)

/-- The colon opens a mapping if the key is the first one of it. -/
theorem takeValue_behindKey (hlevel : level ≤ indentOf text + 1) (key : List Char)
    (index line : Nat) (tokens : List Token) (outer : List Nat) :
    (behindKey key text index line tokens level outer).takeValue =
      some (inLine ((behindKey key text index line tokens level outer).cursor.skip 1)
        (.value :: .scalar true (String.ofList key) :: .key ::
          openedTokens (indentOf text) level tokens)
        (indentOf text + 1) (openedOuter (indentOf text) level outer)) := by
  let l := behindKey key text index line tokens level outer
  let named : Lexer := { l with tokens := .scalar true (String.ofList key) :: .key :: tokens }
  -- the candidate turns out to be a key, so that its token goes in front of the word
  have hkey : l.emitAt tokens.length .key = named := by
    have hplace : l.tokens.length - tokens.length = 1 := Nat.add_sub_cancel_left tokens.length 1
    rw [emitAt, hplace]
    rfl
  have htake : l.takeValue = some
      { (named.openBlock (indentOf text) tokens.length .blockMappingStart).take 1 .value with
        candidate := none
        keyAllowed := false } := by
    rw [← hkey]
    rfl
  have hcond : (named.inFlow || decide (indentOf text < named.level)) =
      decide (indentOf text < level) := rfl
  rw [htake, openBlock, hcond]
  by_cases hopen : indentOf text < level
  · obtain rfl : level = indentOf text + 1 := by omega
    rw [openedTokens, openedOuter, if_pos hopen, if_pos hopen, if_pos (decide_eq_true hopen)]
    rfl
  -- its token stands before that of the key
  · have hstart : named.emitAt tokens.length .blockMappingStart = { named with
        tokens := .scalar true (String.ofList key) :: .key :: .blockMappingStart :: tokens } := by
      have hplace : named.tokens.length - tokens.length = 2 :=
        Nat.add_sub_cancel_left tokens.length 2
      rw [emitAt, hplace]
      rfl
    rw [openedTokens, openedOuter, if_neg hopen, if_neg hopen, if_neg (by simpa using hopen),
      hstart]
    rfl

theorem run_second (fuel : Nat) (hr : behindIndent text = cs ++ ':' :: r)
    (hends : Token.endsWord r = true) (hlevel : level ≤ indentOf text + 1) (index line : Nat)
    (tokens : List Token) (outer : List Nat) :
    run (fuel + 1) (behindKey cs text index line tokens level outer) =
      if cs.length ≤ 1024 then
        run fuel (inLine ⟨r, index + cs.length + 1, line, indentOf text + cs.length + 1⟩
          (.value :: .scalar true (String.ofList cs) :: .key ::
            openedTokens (indentOf text) level tokens)
          (indentOf text + 1) (openedOuter (indentOf text) level outer))
      else none := by
  let l := behindKey cs text index line tokens level outer
  have hrest : l.cursor.rest = ':' :: r := by
    have hdrop : l.cursor.rest = (behindIndent text).drop cs.length := rfl
    rw [hdrop, hr]
    exact List.drop_left
  have hhead : ∀ d ∈ l.cursor.rest.head?, isInk d = true := by
    rw [hrest]
    intro d hd
    obtain rfl := Option.some.inj hd
    rfl
  have hpeek : l.cursor.peek? = some ':' := by
    rw [Cursor.peek?, hrest]
    rfl
  have hskip := skipSpace_still l.cursor.rest.length hhead
  have hlevel' : level ≤ indentOf text + cs.length + 1 := by omega
  -- between the candidate and the colon stands the key
  have hstale : Candidate.isStale ⟨tokens.length, index, line, indentOf text,
      level == indentOf text + 1⟩ l.cursor = decide (1024 < cs.length) := by
    have hindex : l.cursor.index = index + cs.length := rfl
    have hline : l.cursor.line = line := rfl
    rw [Candidate.isStale, hindex, hline]
    simp
  have hdropped := dropStale_some (l := l) rfl rfl
  rw [hstale] at hdropped
  by_cases hlong : 1024 < cs.length
  · rw [if_neg (by omega)]
    rw [if_pos (by simpa using hlong)] at hdropped
    by_cases hrequired : level = indentOf text + 1
    · rw [if_pos (by simpa using hrequired)] at hdropped
      rw [run, hskip, hdropped]
      rfl
    -- what might have been a key stays a value, and then the colon has none
    · rw [if_neg (by simpa using hrequired)] at hdropped
      let m : Lexer := { l with candidate := none }
      have hdrop : (skipSpace (l.cursor.rest.length + 1) l).dropStale = some m := by
        rw [hskip, hdropped]
      have hnone : m.takeValue = none := rfl
      rw [run_token fuel hdrop hlevel' hpeek, takeToken_colon (l := m) hrest hends, hnone]
      rfl
  · rw [if_neg (by simpa using hlong)] at hdropped
    have hdrop : (skipSpace (l.cursor.rest.length + 1) l).dropStale = some l := by
      rw [hskip, hdropped]
    have hcursor : l.cursor.skip 1 =
        ⟨r, index + cs.length + 1, line, indentOf text + cs.length + 1⟩ := by
      rw [Cursor.skip, hrest]
      rfl
    have hvalue := takeValue_behindKey hlevel cs index line tokens outer
    rw [run_token fuel hdrop hlevel' hpeek, takeToken_colon hrest hends, hvalue, Option.bind_some,
      hcursor, if_pos (by omega)]

variable {key value next : List Char} {column : Nat}

/-- A key that is too long is not taken for one. -/
theorem run_long_key (fuel : Nat) (h : IsWord key) (hcolumn : indentOf text = column)
    (hr : behindIndent text = key ++ ':' :: r)
    (hends : Token.endsWord r = true) (hlevel : level ≤ column + 1)
    (hlong : 1024 < key.length) (index line : Nat)
    (tokens : List Token) (outer : List Nat) :
    run (fuel + 2) (atLine text index line tokens level outer) = none := by
  subst hcolumn
  rw [run_first (fuel + 1) h hr hends hlevel, run_second fuel hr hends hlevel, if_neg (by omega)]

/-- A line with a key and a word adds the tokens of its entry. -/
theorem run_word (fuel : Nat) (hkey : IsWord key) (hvalue : IsWord value)
    (hcolumn : indentOf text = column)
    (hr : behindIndent text = key ++ ':' :: ' ' :: (value ++ '\n' :: next)) (hnext : Begins next)
    (hleft : indentOf next ≤ column) (hlevel : level ≤ column + 1)
    (hshort : key.length ≤ 1024) (index line : Nat)
    (tokens : List Token) (outer : List Nat) :
    ∃ index' line', run (fuel + 3) (atLine text index line tokens level outer) =
      run fuel (atLine next index' line' (.scalar true (String.ofList value) :: .value ::
        .scalar true (String.ofList key) :: .key :: openedTokens (column) level tokens)
        (column + 1) (openedOuter (column) level outer)) := by
  subst hcolumn
  have hends : Token.endsWord (' ' :: (value ++ '\n' :: next)) = true := rfl
  rw [run_first (fuel + 2) hkey hr hends hlevel, run_second (fuel + 1) hr hends hlevel,
    if_pos hshort]
  generalize openedTokens (indentOf text) level tokens = tokens'
  generalize openedOuter (indentOf text) level outer = outer'
  generalize index + key.length + 1 = index'
  let l := inLine ⟨' ' :: (value ++ '\n' :: next), index', line, indentOf text + key.length + 1⟩
    (.value :: .scalar true (String.ofList key) :: .key :: tokens') (indentOf text + 1) outer'
  let m := { l with cursor := l.cursor.skip 1 }
  -- one blank, then the word with the line break and the indentation behind it
  have hhead : ∀ d ∈ m.cursor.rest.head?, isInk d = true := Token.head_of_word hvalue
  have hspace : l.cursor.skipWhile l.isSkipped = m.cursor :=
    Cursor.skipWhile_space rfl hhead rfl fun _ hd => l.isSkipped_of_isInk hd
  have hmark : (l.cursor.index == 0 && l.cursor.sees '\ufeff') = false := Bool.and_false _
  have hdrop : (skipSpace (l.cursor.rest.length + 1) l).dropStale = some m := by
    rw [skipSpace_to l.cursor.rest.length hmark hspace hhead]
    exact dropStale_none rfl rfl
  obtain ⟨ch, hpeek, htake⟩ := takeToken_word (l := m) rfl hvalue rfl
  have hlevel' : m.level ≤ m.cursor.column + 1 := by
    have hl : m.level = indentOf text + 1 := rfl
    have hc : m.cursor.column = indentOf text + key.length + 2 := rfl
    omega
  have hread := Token.readPlain_value (c := m.cursor) hvalue rfl hnext (Nat.lt_succ_of_le hleft)
  have htaken := takePlain_saved (l := m) (m := m) rfl hread
  rw [run_token fuel hdrop hlevel' hpeek, htake, htaken]
  exact ⟨_, _, rfl⟩

theorem run_congr (fuel : Nat) {l' : Lexer} (h : skipSpace (l.cursor.rest.length + 1) l =
    skipSpace (l'.cursor.rest.length + 1) l') : run (fuel + 1) l = run (fuel + 1) l' := by
  rw [run, run, h]

/-- A line with nothing but a key adds the beginning of its entry. -/
theorem run_block (fuel : Nat) (hkey : IsWord key) (hcolumn : indentOf text = column)
    (hr : behindIndent text = key ++ ':' :: '\n' :: next) (hnext : Begins next)
    (hlevel : level ≤ column + 1) (hshort : key.length ≤ 1024) (index line : Nat)
    (tokens : List Token) (outer : List Nat) :
    ∃ index' line', run (fuel + 3) (atLine text index line tokens level outer) =
      run (fuel + 1) (atLine next index' line' (.value ::
        .scalar true (String.ofList key) :: .key :: openedTokens (column) level tokens)
        (column + 1) (openedOuter (column) level outer)) := by
  subst hcolumn
  have hends : Token.endsWord ('\n' :: next) = true := rfl
  rw [run_first (fuel + 2) hkey hr hends hlevel, run_second (fuel + 1) hr hends hlevel,
    if_pos hshort]
  generalize openedTokens (indentOf text) level tokens = tokens'
  generalize openedOuter (indentOf text) level outer = outer'
  generalize index + key.length + 1 = index'
  have hbreak := skipSpace_break hnext next.length index' line (indentOf text + key.length + 1)
    (.value :: .scalar true (String.ofList key) :: .key :: tokens') (indentOf text + 1) outer'
  let l := atLine next (index' + 1 + indentOf next) (line + 1)
    (.value :: .scalar true (String.ofList key) :: .key :: tokens') (indentOf text + 1) outer'
  have hstill : skipSpace (l.cursor.rest.length + 1) l = l :=
    skipSpace_still l.cursor.rest.length hnext
  -- behind its blanks the lexer is where it would be at the beginning of the next line
  exact ⟨_, _, run_congr fuel (hbreak.trans hstill.symm)⟩

/-- A mapping to the right of the next line has ended. -/
theorem run_close (fuel : Nat) (hbegins : Begins text)
    (hright : indentOf text + 1 < level) (index line : Nat)
    (tokens : List Token) (left : Nat) (outer : List Nat) :
    run (fuel + 1) (atLine text index line tokens level (left :: outer)) =
      run (fuel + 1) (atLine text index line (.blockEnd :: tokens) left outer) := by
  let l := atLine text index line tokens level (left :: outer)
  let m := atLine text index line (.blockEnd :: tokens) left outer
  have hl : skipSpace (l.cursor.rest.length + 1) l = l :=
    skipSpace_still l.cursor.rest.length hbegins
  have hm : skipSpace (m.cursor.rest.length + 1) m = m :=
    skipSpace_still m.cursor.rest.length hbegins
  -- further blocks that end here are closed in the same step
  have hclose : l.closeBlocks (l.cursor.column + 1) = m.closeBlocks (m.cursor.column + 1) := by
    have hright : l.cursor.column + 1 < l.level := hright
    have hstep : closeFrom (l.cursor.column + 1) (left :: outer) l =
        closeFrom (l.cursor.column + 1) outer m := by
      rw [closeFrom, if_pos hright]
      rfl
    exact hstep
  rw [run, run, hl, hm, dropStale_none (l := l) rfl rfl, dropStale_none (l := m) rfl rfl]
  simp only [Option.bind_eq_bind, Option.bind_some, hclose]

/-- The first key of a mapping opens it, however the lexer got there. -/
theorem run_open (fuel : Nat) (hkey : IsWord key) (hcolumn : indentOf text = column)
    (hr : behindIndent text = key ++ ':' :: r) (hends : Token.endsWord r = true)
    (hright : level ≤ column) (index line : Nat)
    (tokens : List Token) (outer : List Nat) :
    run (fuel + 2) (atLine text index line tokens level outer) =
      run (fuel + 2) (atLine text index line (.blockMappingStart :: tokens) (column + 1)
        (level :: outer)) := by
  subst hcolumn
  -- in both cases the key and its colon take two steps to the same tokens
  have hlevel : level ≤ indentOf text + 1 := Nat.le_succ_of_le hright
  have hnot : ¬indentOf text < level := Nat.not_lt.mpr hright
  have hopen : indentOf text < indentOf text + 1 := Nat.lt_succ_self _
  rw [run_first (fuel + 1) hkey hr hends hlevel, run_second fuel hr hends hlevel,
    run_first (fuel + 1) hkey hr hends (Nat.le_refl _), run_second fuel hr hends (Nat.le_refl _)]
  simp only [openedTokens, openedOuter, hnot, hopen, if_true, if_false]

end Key

end Lexer

end PluginResolution.Yaml
