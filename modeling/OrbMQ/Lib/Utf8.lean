import OrbMQ.Lib.Io

/-!
# `unicode/utf8.ValidString`

The table of well-formed UTF-8 byte sequences that Go's `utf8.ValidString` checks: the first byte
fixes the number of continuation bytes and the range of the first of them, so that overlong
forms, surrogates and values above U+10FFFF have no encoding.

* A string can be cut at an ASCII byte: it is valid iff its parts are (`validString_intercalate`).
* What is valid is the encoding of some characters (`validString_iff`), and the byte 0 is in it iff U+0000 is one
  of them (`zero_mem_encodeChars`).
-/

namespace Go.Utf8

/-- A continuation byte. -/
def isCont (b : UInt8) : Bool := 0x80 ≤ b && b ≤ 0xBF

/-- The range of the second byte of a sequence that starts with `b`. -/
def second (b c : UInt8) : Bool :=
  if b = 0xE0 then 0xA0 ≤ c && c ≤ 0xBF
  else if b = 0xED then 0x80 ≤ c && c ≤ 0x9F
  else if b = 0xF0 then 0x90 ≤ c && c ≤ 0xBF
  else if b = 0xF4 then 0x80 ≤ c && c ≤ 0x8F
  else isCont c

/-- `utf8.ValidString`. -/
def validString : Bytes → Bool
  | [] => true
  | b :: rest =>
    if b < 0x80 then validString rest
    else if b < 0xC2 then false
    else if b < 0xE0 then
      match rest with
      | c :: rest => second b c && validString rest
      | _ => false
    else if b < 0xF0 then
      match rest with
      | c :: d :: rest => second b c && isCont d && validString rest
      | _ => false
    else if b < 0xF5 then
      match rest with
      | c :: d :: e :: rest => second b c && isCont d && isCont e && validString rest
      | _ => false
    else false

/-- An ASCII byte in front keeps a string valid, and only a valid one becomes valid. -/
theorem validString_ascii {b : UInt8} (hb : b < 0x80) (rest : Bytes) :
    validString (b :: rest) = validString rest := by
  rw [validString.eq_def]
  simp [hb]

section Lead

variable {b : UInt8} (h1 : ¬ b < 0x80) (h2 : ¬ b < 0xC2)

include h1 h2

theorem validString_two (h3 : b < 0xE0) (rest : Bytes) : validString (b :: rest) =
    match rest with
    | c :: rest => second b c && validString rest
    | _ => false := by
  rw [validString.eq_def]
  simp only [if_neg h1, if_neg h2, if_pos h3]
  cases rest <;> rfl

theorem validString_three (h3 : ¬ b < 0xE0) (h4 : b < 0xF0) (rest : Bytes) : validString (b :: rest) =
    match rest with
    | c :: d :: rest => second b c && isCont d && validString rest
    | _ => false := by
  rw [validString.eq_def]
  simp only [if_neg h1, if_neg h2, if_neg h3, if_pos h4]
  rcases rest with _ | ⟨c, _ | ⟨d, rest⟩⟩ <;> rfl

theorem validString_four (h3 : ¬ b < 0xE0) (h4 : ¬ b < 0xF0) (h5 : b < 0xF5) (rest : Bytes) :
    validString (b :: rest) =
    match rest with
    | c :: d :: e :: rest => second b c && isCont d && isCont e && validString rest
    | _ => false := by
  rw [validString.eq_def]
  simp only [if_neg h1, if_neg h2, if_neg h3, if_neg h4, if_pos h5]
  rcases rest with _ | ⟨c, _ | ⟨d, _ | ⟨e, rest⟩⟩⟩ <;> rfl

end Lead

/-! ## Separators

An ASCII byte is a whole character, so a string can be cut at one. -/

section Separator

variable {sep : UInt8} (hsep : sep < 0x80)

include hsep

theorem isCont_ascii : isCont sep = false := by
  have h : ¬ (0x80 : UInt8) ≤ sep := UInt8.not_le.mpr hsep
  simp [isCont, h]

theorem second_ascii (b : UInt8) : second b sep = false := by
  have h80 : ¬ (0x80 : UInt8) ≤ sep := UInt8.not_le.mpr hsep
  have hlow : ∀ k : UInt8, 0x80 ≤ k → ¬ k ≤ sep := fun k hk h => h80 (UInt8.le_trans hk h)
  unfold second
  repeat' split
  · simp [hlow 0xA0 (by decide)]
  · simp [h80]
  · simp [hlow 0x90 (by decide)]
  · simp [h80]
  · exact isCont_ascii hsep

/-- A string with a separator is valid iff the parts are: no sequence goes over the separator. -/
theorem validString_append_sep (a b : Bytes) :
    validString (a ++ sep :: b) = (validString a && validString b) := by
  have hcont := isCont_ascii hsep
  have hsecond := second_ascii hsep
  fun_induction validString a with
  | case1 => simpa using validString_ascii hsep b
  | case2 lead rest h ih => rw [List.cons_append, validString_ascii h, ih]
  | case3 lead rest h1 h2 =>
    rw [List.cons_append, validString.eq_def]
    simp only [if_neg h1, if_pos h2, Bool.false_and]
  | case4 lead h1 h2 h3 c rest ih =>
    rw [List.cons_append, List.cons_append, validString_two h1 h2 h3]
    simp only [ih, Bool.and_assoc]
  | case5 lead rest h1 h2 h3 hrest =>
    rw [List.cons_append, validString_two h1 h2 h3]
    cases rest with
    | nil => simp [hsecond]
    | cons c rest => exact (hrest c rest rfl).elim
  | case6 lead h1 h2 h3 h4 c d rest ih =>
    rw [List.cons_append, List.cons_append, List.cons_append, validString_three h1 h2 h3 h4]
    simp only [ih, Bool.and_assoc]
  | case7 lead rest h1 h2 h3 h4 hrest =>
    rw [List.cons_append, validString_three h1 h2 h3 h4]
    match rest, hrest with
    | [], _ => cases b <;> simp [hsecond]
    | [c], _ => simp [hcont]
    | c :: d :: rest, hrest => exact (hrest c d rest rfl).elim
  | case8 lead h1 h2 h3 h4 h5 c d e rest ih =>
    rw [List.cons_append, List.cons_append, List.cons_append, List.cons_append, validString_four h1 h2 h3 h4 h5]
    simp only [ih, Bool.and_assoc]
  | case9 lead rest h1 h2 h3 h4 h5 hrest =>
    rw [List.cons_append, validString_four h1 h2 h3 h4 h5]
    match rest, hrest with
    | [], _ => rcases b with _ | ⟨_, _ | ⟨_, _⟩⟩ <;> simp [hsecond]
    | [c], _ => cases b <;> simp [hcont]
    | [c, d], _ => simp [hcont]
    | c :: d :: e :: rest, hrest => exact (hrest c d e rest rfl).elim
  | case10 lead rest h1 h2 h3 h4 h5 =>
    rw [List.cons_append, validString.eq_def]
    simp only [if_neg h1, if_neg h2, if_neg h3, if_neg h4, if_neg h5, Bool.false_and]

theorem validString_intercalate (parts : List Bytes) :
    validString ([sep].intercalate parts) = parts.all validString := by
  induction parts with
  | nil => rfl
  | cons part parts ih =>
    cases parts with
    | nil => simp
    | cons next parts =>
      rw [List.intercalate_cons_cons, List.append_assoc, List.singleton_append, validString_append_sep hsep, ih]
      simp

end Separator

/-! ## Characters

A string is valid iff it is the encoding of a list of characters (`Char` is the Unicode scalar values). -/

/-- The encoding of some characters. -/
def encodeChars (cs : List Char) : Bytes := cs.flatMap String.utf8EncodeChar

theorem isCont_iff (b : UInt8) : isCont b = true ↔ 0x80 ≤ b.toNat ∧ b.toNat ≤ 0xBF := by
  simp [isCont, UInt8.le_iff_toNat_le]

theorem second_iff (b c : UInt8) : second b c = true ↔ (0x80 ≤ c.toNat ∧ c.toNat ≤ 0xBF) ∧
    (b.toNat = 0xE0 → 0xA0 ≤ c.toNat) ∧ (b.toNat = 0xED → c.toNat ≤ 0x9F) ∧
    (b.toNat = 0xF0 → 0x90 ≤ c.toNat) ∧ (b.toNat = 0xF4 → c.toNat ≤ 0x8F) := by
  have he : ∀ {k : UInt8}, b = k ↔ b.toNat = k.toNat := UInt8.toNat_inj.symm
  unfold second
  simp only [he, isCont, UInt8.toNat_ofNat, UInt8.le_iff_toNat_le]
  repeat' split
  all_goals simp only [Bool.and_eq_true, decide_eq_true_eq]; omega

/-- A character in front keeps a string valid, and only a valid one becomes valid. -/
theorem validString_char (c : Char) (rest : Bytes) :
    validString (String.utf8EncodeChar c ++ rest) = validString rest := by
  have hv : c.val.toNat < 0xD800 ∨ 0xDFFF < c.val.toNat ∧ c.val.toNat < 0x110000 := c.valid
  have hbyte : ∀ n < 256, (UInt8.ofNat n).toNat = n := fun n hn => by
    rw [UInt8.toNat_ofNat', Nat.mod_eq_of_lt hn]
  unfold String.utf8EncodeChar
  generalize c.val.toNat = v at hv
  dsimp only
  split
  · have hb := hbyte v (by omega)
    generalize UInt8.ofNat v = b at hb
    refine validString_ascii ?_ rest
    simp only [UInt8.lt_iff_toNat_lt, UInt8.toNat_ofNat]
    omega
  split
  · have hb := hbyte (v / 64 % 32 + 192) (by omega)
    have hc := hbyte (v % 64 + 128) (by omega)
    generalize UInt8.ofNat (v / 64 % 32 + 192) = b at hb
    generalize UInt8.ofNat (v % 64 + 128) = c at hc
    have hsecond : second b c = true := by rw [second_iff]; omega
    rw [List.cons_append, List.cons_append, validString_two]
    · simp [hsecond]
    all_goals simp only [UInt8.lt_iff_toNat_lt, UInt8.toNat_ofNat]; omega
  split
  · have hb := hbyte (v / 4096 % 16 + 224) (by omega)
    have hc := hbyte (v / 64 % 64 + 128) (by omega)
    have hd := hbyte (v % 64 + 128) (by omega)
    generalize UInt8.ofNat (v / 4096 % 16 + 224) = b at hb
    generalize UInt8.ofNat (v / 64 % 64 + 128) = c at hc
    generalize UInt8.ofNat (v % 64 + 128) = d at hd
    have hsecond : second b c = true := by rw [second_iff]; omega
    have hcont : isCont d = true := by rw [isCont_iff]; omega
    rw [List.cons_append, List.cons_append, List.cons_append, validString_three]
    · simp [hsecond, hcont]
    all_goals simp only [UInt8.lt_iff_toNat_lt, UInt8.toNat_ofNat]; omega
  · have hb := hbyte (v / 262144 % 8 + 240) (by omega)
    have hc := hbyte (v / 4096 % 64 + 128) (by omega)
    have hd := hbyte (v / 64 % 64 + 128) (by omega)
    have he := hbyte (v % 64 + 128) (by omega)
    generalize UInt8.ofNat (v / 262144 % 8 + 240) = b at hb
    generalize UInt8.ofNat (v / 4096 % 64 + 128) = c at hc
    generalize UInt8.ofNat (v / 64 % 64 + 128) = d at hd
    generalize UInt8.ofNat (v % 64 + 128) = e at he
    have hsecond : second b c = true := by rw [second_iff]; omega
    have hcont : isCont d = true ∧ isCont e = true := by simp only [isCont_iff]; omega
    rw [List.cons_append, List.cons_append, List.cons_append, List.cons_append, validString_four]
    · simp [hsecond, hcont]
    all_goals simp only [UInt8.lt_iff_toNat_lt, UInt8.toNat_ofNat]; omega

/-- The character with a number. -/
theorem exists_char {n : Nat} (h : n < 0xD800 ∨ 0xDFFF < n ∧ n < 0x110000) : ∃ c : Char, c.val.toNat = n :=
  ⟨Char.ofNatAux n h, Char.toNat_ofNatAux h⟩

theorem ofNat_eq {b : UInt8} {n : Nat} (h : n = b.toNat) : UInt8.ofNat n = b := by
  rw [h, UInt8.ofNat_toNat]

/-- Every sequence of the table is a character. -/
theorem exists_char_one {b : UInt8} (hb : b < 0x80) : ∃ c, String.utf8EncodeChar c = [b] := by
  simp only [UInt8.lt_iff_toNat_lt, UInt8.toNat_ofNat] at hb
  obtain ⟨c, hc⟩ := exists_char (n := b.toNat) (by omega)
  refine ⟨c, ?_⟩
  unfold String.utf8EncodeChar
  rw [hc]
  dsimp only
  rw [if_pos (by omega), UInt8.ofNat_toNat]

theorem exists_char_two {b c : UInt8} (h1 : ¬ b < 0xC2) (h2 : b < 0xE0) (hc : second b c = true) :
    ∃ x, String.utf8EncodeChar x = [b, c] := by
  simp only [UInt8.lt_iff_toNat_lt, UInt8.toNat_ofNat] at h1 h2
  rw [second_iff] at hc
  obtain ⟨x, hx⟩ := exists_char (n := (b.toNat - 192) * 64 + (c.toNat - 128)) (by omega)
  refine ⟨x, ?_⟩
  unfold String.utf8EncodeChar
  dsimp only
  rw [hx, if_neg (by omega), if_pos (by omega), ofNat_eq (b := b) (by omega), ofNat_eq (b := c) (by omega)]

theorem exists_char_three {b c d : UInt8} (h1 : ¬ b < 0xE0) (h2 : b < 0xF0) (hc : second b c = true)
    (hd : isCont d = true) : ∃ x, String.utf8EncodeChar x = [b, c, d] := by
  simp only [UInt8.lt_iff_toNat_lt, UInt8.toNat_ofNat] at h1 h2
  rw [second_iff] at hc
  rw [isCont_iff] at hd
  obtain ⟨x, hx⟩ := exists_char (n := (b.toNat - 224) * 4096 + (c.toNat - 128) * 64 + (d.toNat - 128)) (by omega)
  refine ⟨x, ?_⟩
  unfold String.utf8EncodeChar
  dsimp only
  rw [hx, if_neg (by omega), if_neg (by omega), if_pos (by omega), ofNat_eq (b := b) (by omega),
    ofNat_eq (b := c) (by omega), ofNat_eq (b := d) (by omega)]

theorem exists_char_four {b c d e : UInt8} (h1 : ¬ b < 0xF0) (h2 : b < 0xF5) (hc : second b c = true)
    (hd : isCont d = true) (he : isCont e = true) : ∃ x, String.utf8EncodeChar x = [b, c, d, e] := by
  simp only [UInt8.lt_iff_toNat_lt, UInt8.toNat_ofNat] at h1 h2
  rw [second_iff] at hc
  rw [isCont_iff] at hd he
  obtain ⟨x, hx⟩ := exists_char
    (n := (b.toNat - 240) * 262144 + (c.toNat - 128) * 4096 + (d.toNat - 128) * 64 + (e.toNat - 128)) (by omega)
  refine ⟨x, ?_⟩
  unfold String.utf8EncodeChar
  dsimp only
  rw [hx, if_neg (by omega), if_neg (by omega), if_neg (by omega), ofNat_eq (b := b) (by omega),
    ofNat_eq (b := c) (by omega), ofNat_eq (b := d) (by omega), ofNat_eq (b := e) (by omega)]

/-- **`ValidString` decides well-formed UTF-8.** -/
theorem validString_iff (v : Bytes) : validString v = true ↔ ∃ cs, v = encodeChars cs := by
  constructor
  · intro h
    -- A sequence of the table is one more character.
    have hmore : ∀ {seq rest : Bytes}, (∃ c, String.utf8EncodeChar c = seq) → (∃ cs, rest = encodeChars cs) →
        ∃ cs, seq ++ rest = encodeChars cs := by
      rintro _ _ ⟨c, rfl⟩ ⟨cs, rfl⟩
      exact ⟨c :: cs, (List.flatMap_cons ..).symm⟩
    fun_induction validString v with
    | case1 => exact ⟨[], rfl⟩
    | case2 b rest hb ih => exact hmore (exists_char_one hb) (ih h)
    | case4 b h1 h2 h3 c rest ih =>
      rw [Bool.and_eq_true] at h
      exact hmore (exists_char_two h2 h3 h.1) (ih h.2)
    | case6 b h1 h2 h3 h4 c d rest ih =>
      rw [Bool.and_eq_true, Bool.and_eq_true] at h
      exact hmore (exists_char_three h3 h4 h.1.1 h.1.2) (ih h.2)
    | case8 b h1 h2 h3 h4 h5 c d e rest ih =>
      rw [Bool.and_eq_true, Bool.and_eq_true, Bool.and_eq_true] at h
      exact hmore (exists_char_four h4 h5 h.1.1.1 h.1.1.2 h.1.2) (ih h.2)
    | case3 | case5 | case7 | case9 | case10 => cases h
  · rintro ⟨cs, rfl⟩
    induction cs with
    | nil => rfl
    | cons c cs ih =>
      rw [encodeChars, List.flatMap_cons, validString_char]
      exact ih

/-- The byte 0 is the character U+0000, and no part of another one. -/
theorem zero_mem_utf8EncodeChar (c : Char) : 0 ∈ String.utf8EncodeChar c ↔ c.val.toNat = 0 := by
  have hzero : ∀ n, (0 : UInt8) = UInt8.ofNat n ↔ n % 256 = 0 := fun n => by
    rw [← UInt8.toNat_inj, UInt8.toNat_ofNat']
    simp only [UInt8.toNat_ofNat]
    omega
  unfold String.utf8EncodeChar
  dsimp only
  repeat' split
  all_goals simp only [List.mem_cons, List.not_mem_nil, or_false, hzero]; omega

theorem zero_mem_encodeChars (cs : List Char) : 0 ∈ encodeChars cs ↔ Char.ofNat 0 ∈ cs := by
  rw [encodeChars, List.mem_flatMap]
  constructor
  · rintro ⟨c, hc, h0⟩
    have e : c = Char.ofNat 0 := Char.ext (UInt32.toNat_inj.mp ((zero_mem_utf8EncodeChar c).mp h0))
    exact e ▸ hc
  · exact fun h => ⟨_, h, (zero_mem_utf8EncodeChar _).mpr rfl⟩

end Go.Utf8
