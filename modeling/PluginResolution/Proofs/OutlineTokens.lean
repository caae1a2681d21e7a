import PluginResolution.Proofs.LexerLines

namespace PluginResolution.Yaml

namespace Outline

/-- The tokens of a mapping with these tokens of its entries. A mapping without entries has none. -/
def enclose (o : Outline) (tokens : List Token) : List Token :=
  match o with
  | nothing => []
  | _ => .blockMappingStart :: (tokens ++ [.blockEnd])

def tokens : Outline → List Token
  | nothing => []
  | word key text rest =>
    .key :: .scalar true key :: .value :: .scalar true text :: rest.tokens
  | block key inner rest =>
    .key :: .scalar true key :: .value :: (inner.enclose inner.tokens ++ rest.tokens)

def steps : Outline → Nat
  | nothing => 0
  | word _ _ rest => rest.steps + 3
  | block _ inner rest => inner.steps + rest.steps + 2

def fits : Outline → Bool
  | nothing => true
  | word key _ rest => key.length ≤ 1024 && rest.fits
  | block key inner rest => key.length ≤ 1024 && inner.fits && rest.fits

theorem enclose_of_ne {o : Outline} (h : o ≠ nothing) (ts : List Token) :
    o.enclose ts = .blockMappingStart :: (ts ++ [.blockEnd]) := by
  cases o with
  | nothing => exact absurd rfl h
  | word key text rest => rfl
  | block key inner rest => rfl

theorem two_le_steps {o : Outline} (h : o ≠ nothing) : 2 ≤ o.steps := by
  cases o with
  | nothing => exact absurd rfl h
  | word key text rest => exact Nat.le_add_left_of_le (by omega)
  | block key inner rest => exact Nat.le_add_left 2 _

variable {indent column : Nat} {after : List Char}

theorem indentOf_key {key : List Char} (h : IsWord key) (n : Nat) (r : List Char) :
    indentOf (List.replicate n ' ' ++ (key ++ r)) = n := by
  obtain ⟨c, tail, rfl, hink, -⟩ := h.begins
  have hc : c ≠ ' ' := ne_of_isInk hink (by decide)
  exact indentOf_spaces n hc (tail ++ r)

theorem behindIndent_key {key : List Char} (h : IsWord key) (n : Nat) (r : List Char) :
    behindIndent (List.replicate n ' ' ++ (key ++ r)) = key ++ r := by
  obtain ⟨c, tail, rfl, hink, -⟩ := h.begins
  have hc : c ≠ ' ' := ne_of_isInk hink (by decide)
  exact behindIndent_spaces n hc (tail ++ r)

theorem first_of_word (indent column : Nat) (after : List Char) {key : String}
    (hkey : IsWord key.toList) (text : String) (rest : Outline) :
    indentOf ((word key text rest).lines indent column ++ after) = column ∧
      behindIndent ((word key text rest).lines indent column ++ after) =
        key.toList ++ ':' :: ' ' :: (text.toList ++ '\n' ::
          (rest.lines indent column ++ after)) := by
  have hlines : (word key text rest).lines indent column ++ after =
      List.replicate column ' ' ++ (key.toList ++ ':' :: ' ' :: (text.toList ++ '\n' ::
        (rest.lines indent column ++ after))) := by
    simp [lines]
  rw [hlines]
  exact ⟨indentOf_key hkey column _, behindIndent_key hkey column _⟩

theorem first_of_block (indent column : Nat) (after : List Char) {key : String}
    (hkey : IsWord key.toList) (inner rest : Outline) :
    indentOf ((block key inner rest).lines indent column ++ after) = column ∧
      behindIndent ((block key inner rest).lines indent column ++ after) =
        key.toList ++ ':' :: '\n' :: (inner.lines indent (column + indent + 1) ++
          (rest.lines indent column ++ after)) := by
  have hlines : (block key inner rest).lines indent column ++ after =
      List.replicate column ' ' ++ (key.toList ++ ':' :: '\n' ::
        (inner.lines indent (column + indent + 1) ++ (rest.lines indent column ++ after))) := by
    simp [lines]
  rw [hlines]
  exact ⟨indentOf_key hkey column _, behindIndent_key hkey column _⟩

/-- The lines of a mapping begin with a key at its column, if it has any entries. -/
theorem first_of_lines (indent column : Nat) (after : List Char) {o : Outline} (h : o.Spelled)
    (hne : o ≠ nothing) :
    indentOf (o.lines indent column ++ after) = column ∧
      ∃ key r, IsWord key ∧ Token.endsWord r = true ∧
        behindIndent (o.lines indent column ++ after) = key ++ ':' :: r := by
  cases o with
  | nothing => exact absurd rfl hne
  | word key text rest =>
    obtain ⟨hindent, hbehind⟩ := first_of_word indent column after h.1 text rest
    exact ⟨hindent, key.toList, _, h.1, rfl, hbehind⟩
  | block key inner rest =>
    obtain ⟨hindent, hbehind⟩ := first_of_block indent column after h.1 inner rest
    exact ⟨hindent, key.toList, _, h.1, rfl, hbehind⟩

theorem begins_lines {o : Outline} (h : o.Spelled) (hafter : Begins after) :
    Begins (o.lines indent column ++ after) := by
  by_cases hne : o = nothing
  · subst hne
    exact hafter
  · obtain ⟨-, key, r, hkey, -, hbehind⟩ := first_of_lines indent column after h hne
    rw [Begins, hbehind]
    exact Token.head_of_word hkey

theorem indentOf_lines_le {o : Outline} (h : o.Spelled) (hleft : indentOf after ≤ column) :
    indentOf (o.lines indent column ++ after) ≤ column := by
  by_cases hne : o = nothing
  · subst hne
    exact hleft
  · exact Nat.le_of_eq (first_of_lines indent column after h hne).1

open Lexer

/-- Where the mapping is open, its entries add their tokens, unless a key is too long. -/
def AddsTokens (indent : Nat) (o : Outline) : Prop :=
  ∀ {column after}, Begins after → indentOf after ≤ column →
    ∀ (fuel index line : Nat) (ts : List Token) (outer : List Nat),
      ∃ index' line', run (fuel + o.steps + 1)
          (atLine (o.lines indent column ++ after) index line ts (column + 1) outer) =
        if o.fits then
          run (fuel + 1) (atLine after index' line' (o.tokens.reverse ++ ts) (column + 1) outer)
        else none

/-- A mapping opens with its first key and closes before the next line to the left. -/
theorem run_enclosed {o : Outline} (h : o.Spelled) (hadds : AddsTokens indent o) {level : Nat}
    (hlevel : level ≤ column) (hafter : Begins after) (hleft : indentOf after < column)
    (fuel index line : Nat) (ts : List Token) (outer : List Nat) :
    ∃ index' line', run (fuel + o.steps + 1)
        (atLine (o.lines indent column ++ after) index line ts level outer) =
      if o.fits then
        run (fuel + 1)
          (atLine after index' line' ((o.enclose o.tokens).reverse ++ ts) level outer)
      else none := by
  by_cases hne : o = nothing
  · subst hne
    exact ⟨index, line, rfl⟩
  · obtain ⟨hcolumn, key, r, hkey, hends, hbehind⟩ :=
      first_of_lines indent column after h hne
    obtain ⟨x, hx⟩ := Nat.exists_eq_add_of_le (two_le_steps hne)
    have hfuel : fuel + o.steps + 1 = fuel + x + 1 + 2 := by omega
    -- as if the mapping were open before its first key
    have hopen := run_open (fuel + x + 1) hkey hcolumn hbehind hends hlevel index line ts outer
    rw [← hfuel] at hopen
    obtain ⟨i, n, hrun⟩ := hadds hafter (Nat.le_of_lt hleft) fuel index line
      (.blockMappingStart :: ts) (level :: outer)
    have hclose := run_close fuel hafter (Nat.succ_lt_succ hleft) i n
      (o.tokens.reverse ++ .blockMappingStart :: ts) level outer
    have htokens : (o.enclose o.tokens).reverse ++ ts =
        .blockEnd :: (o.tokens.reverse ++ .blockMappingStart :: ts) := by
      simp [enclose_of_ne hne]
    exact ⟨i, n, by rw [hopen, hrun, hclose, htokens]⟩

/-- The lines of a mapping add its tokens, line by line. -/
theorem addsTokens {o : Outline} (h : o.Spelled) : AddsTokens indent o := by
  intro column after hafter hleft fuel index line ts outer
  -- the lines behind the entry are what the entry is followed by
  induction o generalizing column after fuel index line ts outer with
  | nothing => exact ⟨index, line, rfl⟩
  | word key text rest ih =>
    obtain ⟨hkey, htext, hrest⟩ := h
    obtain ⟨hcolumn, hbehind⟩ := first_of_word indent column after hkey text rest
    have hnext : Begins (rest.lines indent column ++ after) := begins_lines hrest hafter
    have hle : indentOf (rest.lines indent column ++ after) ≤ column :=
      indentOf_lines_le hrest hleft
    have hfuel : fuel + (word key text rest).steps + 1 = fuel + rest.steps + 1 + 3 := by
      rw [steps]
      omega
    rw [hfuel]
    by_cases hshort : key.toList.length ≤ 1024
    · obtain ⟨i, n, hrun⟩ := run_word (fuel + rest.steps + 1) hkey htext hcolumn hbehind hnext hle
        (Nat.le_refl _) hshort index line ts outer
      rw [openedTokens_open, openedOuter_open, String.ofList_toList, String.ofList_toList] at hrun
      obtain ⟨i, n, hrest⟩ := ih hrest hafter hleft fuel i n (.scalar true text :: .value ::
        .scalar true key :: .key :: ts) outer
      have hfits : (word key text rest).fits = rest.fits := by
        rw [fits, decide_eq_true (String.length_toList ▸ hshort), Bool.true_and]
      refine ⟨i, n, ?_⟩
      rw [hrun, hrest, hfits, tokens]
      simp only [List.reverse_cons, List.append_assoc, List.cons_append, List.nil_append]
    · have hlong : 1024 < key.toList.length := Nat.lt_of_not_le hshort
      have hfits : (word key text rest).fits = false := by
        rw [fits, decide_eq_false (String.length_toList ▸ hshort), Bool.false_and]
      refine ⟨0, 0, ?_⟩
      rw [hfits]
      exact run_long_key (fuel + rest.steps + 2) hkey hcolumn hbehind rfl (Nat.le_refl _) hlong
        index line ts outer
  | block key inner rest ihInner ihRest =>
    obtain ⟨hkey, hinner, hrest⟩ := h
    obtain ⟨hcolumn, hbehind⟩ := first_of_block indent column after hkey inner rest
    have hnext : Begins (rest.lines indent column ++ after) := begins_lines hrest hafter
    have hle : indentOf (rest.lines indent column ++ after) ≤ column :=
      indentOf_lines_le hrest hleft
    have hfuel : fuel + (block key inner rest).steps + 1 =
        fuel + rest.steps + inner.steps + 3 := by
      rw [steps]
      omega
    rw [hfuel]
    by_cases hshort : key.toList.length ≤ 1024
    · have hfits : (block key inner rest).fits = (inner.fits && rest.fits) := by
        rw [fits, decide_eq_true (String.length_toList ▸ hshort), Bool.true_and]
      obtain ⟨i, n, hrun⟩ := run_block (fuel + rest.steps + inner.steps) hkey hcolumn hbehind
        (begins_lines hinner hnext) (Nat.le_refl _) hshort index line ts outer
      rw [openedTokens_open, openedOuter_open, String.ofList_toList] at hrun
      -- the mapping below the key ends where the next line is at the column of the key again
      have hright : indentOf (rest.lines indent column ++ after) < column + indent + 1 := by omega
      have hinside : column + 1 ≤ column + indent + 1 := by omega
      obtain ⟨i, n, hmapping⟩ := run_enclosed hinner (ihInner hinner) hinside hnext hright
        (fuel + rest.steps) i n (.value :: .scalar true key :: .key :: ts) outer
      obtain ⟨i, n, hrest⟩ := ihRest hrest hafter hleft fuel i n ((inner.enclose
        inner.tokens).reverse ++ .value :: .scalar true key :: .key :: ts) outer
      refine ⟨i, n, ?_⟩
      rw [hrun, hfits, hmapping, hrest, tokens]
      cases inner.fits with
      | false => rfl
      | true =>
        simp only [Bool.true_and, if_true, List.reverse_cons, List.reverse_append,
          List.append_assoc, List.cons_append, List.nil_append]
    · have hlong : 1024 < key.toList.length := Nat.lt_of_not_le hshort
      have hfits : (block key inner rest).fits = false := by
        rw [fits, decide_eq_false (String.length_toList ▸ hshort), Bool.false_and, Bool.false_and]
      refine ⟨0, 0, ?_⟩
      rw [hfits]
      exact run_long_key (fuel + rest.steps + inner.steps + 1) hkey hcolumn hbehind rfl
        (Nat.le_refl _) hlong index line ts outer

theorem steps_le_length (indent column : Nat) (o : Outline) :
    o.steps ≤ (o.lines indent column).length := by
  induction o generalizing column with
  | nothing => exact Nat.le_refl 0
  | word key text rest ih =>
    have hrest := ih column
    simp only [steps, lines, List.length_append, List.length_cons]
    omega
  | block key inner rest ihInner ihRest =>
    have hinner := ihInner (column + indent + 1)
    have hrest := ihRest column
    simp only [steps, lines, List.length_append, List.length_cons]
    omega

/-- At the end of the text the mapping closes that is open at the left edge. -/
theorem run_end (fuel index line : Nat) (ts : List Token) :
    run (fuel + 1) (atLine [] index line ts 1 [0]) = some (.blockEnd :: ts).reverse := by
  let l := atLine [] index line ts 1 [0]
  have hskip : skipSpace (l.cursor.rest.length + 1) l = l :=
    skipSpace_still l.cursor.rest.length fun c hc => by cases hc
  rw [run, hskip, dropStale_none (l := l) rfl rfl]
  rfl

/-- The tokens of a document in block style: those of its mapping, if its keys are short enough. -/
theorem tokens_document {o : Outline} (h : o.Spelled) (hne : o ≠ nothing) (indent : Nat) :
    tokens? (o.document indent) = if o.fits then some (o.enclose o.tokens) else none := by
  have hchars : (o.document indent).toList = o.lines indent 0 := String.toList_ofList
  have hallowed : (o.lines indent 0).all isAllowed = true :=
    List.all_eq_true.mpr (allowed_lines h)
  obtain ⟨hcolumn, key, r, hkey, hends, hbehind⟩ := first_of_lines indent 0 [] h hne
  have hstart : ({ cursor := .start (o.document indent) } : Lexer) =
      atLine (o.lines indent 0 ++ []) 0 0 [] 0 [] := by
    have hrest : behindIndent (o.lines indent 0 ++ []) = (o.document indent).toList := by
      rw [← drop_indentOf, hcolumn, List.drop_zero, List.append_nil, hchars]
    rw [atLine, hrest, hcolumn]
    rfl
  -- the fuel is the length of the text, which is enough for all steps
  obtain ⟨x, hx⟩ := Nat.exists_eq_add_of_le (steps_le_length indent 0 o)
  obtain ⟨y, hy⟩ := Nat.exists_eq_add_of_le (two_le_steps hne)
  have hfuel : (o.lines indent 0).length + 1 = x + y + 1 + 2 := by omega
  have hopen := run_open (x + y + 1) hkey hcolumn hbehind hends (Nat.le_refl 0) 0 0 [] []
  have hadds : AddsTokens indent o := addsTokens h
  have hnone : Begins [] := fun c hc => by cases hc
  obtain ⟨i, n, hrun⟩ := hadds hnone (Nat.le_refl 0) x 0 0 [.blockMappingStart] [0]
  have hsteps : x + y + 1 + 2 = x + o.steps + 1 := by omega
  rw [tokens?, hchars, if_pos hallowed, hfuel, hstart, hopen, hsteps, hrun]
  cases o.fits with
  | false => rfl
  | true =>
    rw [if_pos rfl, if_pos rfl, run_end, enclose_of_ne hne]
    simp only [List.reverse_cons, List.reverse_append, List.reverse_reverse, List.reverse_nil,
      List.nil_append, List.cons_append]

end Outline

end PluginResolution.Yaml
