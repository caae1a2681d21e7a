namespace PluginResolution.Text

def utf8 (cs : List Char) : List UInt8 :=
  cs.flatMap String.utf8EncodeChar

def charOfUtf8? (bytes : List UInt8) : Option Char :=
  match String.fromUTF8? (ByteArray.mk bytes.toArray) with
  | some s => match s.toList with
    | [c] => some c
    | _ => none
  | none => none

/-- Whether some character begins with these bytes and has more. -/
def beginsChar : List UInt8 → Bool
  | [a] => 0xC2 ≤ a && a ≤ 0xF4
  | [a, b] =>
    (a == 0xE0 && 0xA0 ≤ b && b ≤ 0xBF) || (a == 0xED && 0x80 ≤ b && b ≤ 0x9F) ||
      (0xE1 ≤ a && a ≤ 0xEF && a != 0xED && 0x80 ≤ b && b ≤ 0xBF) ||
      (a == 0xF0 && 0x90 ≤ b && b ≤ 0xBF) || (a == 0xF4 && 0x80 ≤ b && b ≤ 0x8F) ||
      (0xF1 ≤ a && a ≤ 0xF3 && 0x80 ≤ b && b ≤ 0xBF)
  | [a, b, c] => 0xF0 ≤ a && beginsChar [a, b] && 0x80 ≤ c && c ≤ 0xBF
  | _ => false

/-- Reads on after the bytes `pending`, which begin a character. -/
def decodeAfter (pending : List UInt8) : List UInt8 → List Char
  | [] => if pending.isEmpty then [] else ['\uFFFD']
  | b :: rest =>
    let spelled := pending ++ [b]
    match charOfUtf8? spelled with
    | some c => c :: decodeAfter [] rest
    | none =>
      if beginsChar spelled then decodeAfter spelled rest
      else
        let here := match charOfUtf8? [b] with
          | some c => c :: decodeAfter [] rest
          | none => if beginsChar [b] then decodeAfter [b] rest else '\uFFFD' :: decodeAfter [] rest
        if pending.isEmpty then here else '\uFFFD' :: here

/-- The text that bytes spell; each longest run of bytes that only begins a character, and each byte
that cannot begin one, stands for the replacement character. -/
def decodeUtf8 (bytes : List UInt8) : String :=
  String.ofList (decodeAfter [] bytes)

def ofUtf8? (bytes : List UInt8) : Option String :=
  String.fromUTF8? (ByteArray.mk bytes.toArray)

/-- The lines that bytes spell, up to the first one that is no text; `line` has been read of it. -/
def linesOfUtf8 (line : List UInt8) : List UInt8 → List Char
  | [] => ((ofUtf8? line).getD "").toList
  | b :: rest =>
    if b = 10 then
      match ofUtf8? (line ++ [b]) with
      | some s => s.toList ++ linesOfUtf8 [] rest
      | none => []
    else linesOfUtf8 (line ++ [b]) rest

theorem ofNat_lt_ofNat {m n : Nat} (hm : m < 256) (hn : n < 256) :
    UInt8.ofNat m < UInt8.ofNat n ↔ m < n := by
  rw [UInt8.lt_iff_toNat_lt, UInt8.toNat_ofNat', UInt8.toNat_ofNat', Nat.mod_eq_of_lt hm,
    Nat.mod_eq_of_lt hn]

theorem ofNat_eq_ofNat {m n : Nat} (hm : m < 256) (hn : n < 256) :
    UInt8.ofNat m = UInt8.ofNat n ↔ m = n := by
  rw [← UInt8.toNat_inj, UInt8.toNat_ofNat', UInt8.toNat_ofNat', Nat.mod_eq_of_lt hm,
    Nat.mod_eq_of_lt hn]

/-- The bytes of a smaller character are smaller, whatever follows. -/
theorem utf8EncodeChar_lt {c d : Char} (h : c < d) (u v : List UInt8) :
    String.utf8EncodeChar c ++ u < String.utf8EncodeChar d ++ v := by
  have hlt : c.val.toNat < d.val.toNat := h
  have hd : d.val.toNat ≤ 0x10ffff := by
    have hvalid := d.valid
    simp only [UInt32.isValidChar, Nat.isValidChar] at hvalid
    omega
  simp only [String.utf8EncodeChar]
  generalize c.val.toNat = m at hlt
  generalize d.val.toNat = n at hlt hd
  -- the digits to base 64, of which the first that differs decides
  have hm₁ : m / 64 / 64 = m / 4096 := Nat.div_div_eq_div_mul m 64 64
  have hm₂ : m / 4096 / 64 = m / 262144 := Nat.div_div_eq_div_mul m 4096 64
  have hn₁ : n / 64 / 64 = n / 4096 := Nat.div_div_eq_div_mul n 64 64
  have hn₂ : n / 4096 / 64 = n / 262144 := Nat.div_div_eq_div_mul n 4096 64
  have hm₃ : m / 262144 % 8 = m / 262144 := by omega
  have hn₃ : n / 262144 % 8 = n / 262144 := by omega
  rw [hm₃, hn₃]
  repeat' split
  all_goals
    simp (disch := omega) only [List.cons_append, List.nil_append, List.cons_lt_cons_iff,
      ofNat_lt_ofNat, ofNat_eq_ofNat]
    omega

theorem append_lt_append_left (p : List UInt8) {u v : List UInt8} (h : u < v) :
    p ++ u < p ++ v := by
  induction p with
  | nil => exact h
  | cons b p ih => exact List.cons_lt_cons_iff.mpr (.inr ⟨rfl, ih⟩)

/-- Texts are in the order of their bytes. -/
theorem utf8_lt {a b : List Char} (h : a < b) : utf8 a < utf8 b := by
  induction h with
  | nil =>
    rename_i c cs
    rw [utf8, utf8, List.flatMap_nil, List.flatMap_cons]
    cases hc : String.utf8EncodeChar c with
    | nil => exact absurd hc String.utf8EncodeChar_ne_nil
    | cons b bs => exact List.nil_lt_cons ..
  | rel hlt =>
    rw [utf8, utf8, List.flatMap_cons, List.flatMap_cons]
    exact utf8EncodeChar_lt hlt _ _
  | cons _ ih =>
    rw [utf8, utf8, List.flatMap_cons, List.flatMap_cons]
    exact append_lt_append_left _ ih

end PluginResolution.Text
