/-
AgoraRecording.Lib.Utf — UTF-16 code unit sequences and their UTF-8
bytes.

A JavaScript string is any sequence of 16-bit code units, so not every
one of them is the UTF-16 of a text: a surrogate may stand alone.
`decodeUtf16` reads such a sequence the way a replacing decoder does, one
U+FFFD for each lone surrogate; `decodeUtf16_utf16` says it inverts the
encoding on the sequences that ARE the UTF-16 of a text (`WellFormed`).

`cString` is what is left of a byte string once it has passed through a
NUL-terminated buffer; `cString_utf8_eq` says that of a text it leaves the
characters before the first U+0000, and `cString_utf8` when that is all.

`decodeUtf8` reads bytes back, and is only ever given the UTF-8 of a text
here: `decodeUtf8_utf8`.
-/
import Mathlib.Data.List.TakeWhile

namespace AgoraRecording.Lib.Utf

/-! ## Encoders -/

def isHighSurrogate (u : UInt16) : Bool := 0xD800 ≤ u.toNat && u.toNat < 0xDC00

def isLowSurrogate (u : UInt16) : Bool := 0xDC00 ≤ u.toNat && u.toNat < 0xE000

/-- One code unit, or a surrogate pair. -/
def utf16Char (c : Char) : List UInt16 :=
  if c.toNat < 0x10000 then [UInt16.ofNat c.toNat]
  else [UInt16.ofNat (0xD800 + (c.toNat - 0x10000) / 0x400),
        UInt16.ofNat (0xDC00 + (c.toNat - 0x10000) % 0x400)]

def utf16 (cs : List Char) : List UInt16 := cs.flatMap utf16Char

def utf8 (cs : List Char) : List UInt8 := cs.flatMap String.utf8EncodeChar

/-! ## The replacing decoder -/

def replacement : Char := Char.ofNat 0xFFFD

/-- A code unit on its own. -/
def ofUnit (u : UInt16) : Char :=
  if isHighSurrogate u || isLowSurrogate u then replacement else Char.ofNat u.toNat

def ofPair (hi lo : UInt16) : Char :=
  Char.ofNat (0x10000 + (hi.toNat - 0xD800) * 0x400 + (lo.toNat - 0xDC00))

def decodeUtf16 : List UInt16 → List Char
  | [] => []
  | [u] => [ofUnit u]
  | u :: v :: rest =>
      if isHighSurrogate u && isLowSurrogate v then ofPair u v :: decodeUtf16 rest
      else ofUnit u :: decodeUtf16 (v :: rest)

/-- The code units of some text. -/
def WellFormed (s : List UInt16) : Prop := ∃ cs, s = utf16 cs

/-! ## Decoding inverts encoding -/

theorem char_toNat_lt (c : Char) : c.toNat < 0x110000 := by
  have h : c.toNat < 0xD800 ∨ 0xDFFF < c.toNat ∧ c.toNat < 0x110000 := c.valid
  omega

theorem char_not_surrogate (c : Char) : ¬ (0xD800 ≤ c.toNat ∧ c.toNat < 0xE000) := by
  have h : c.toNat < 0xD800 ∨ 0xDFFF < c.toNat ∧ c.toNat < 0x110000 := c.valid
  omega

theorem unit_toNat {n : Nat} (h : n < 0x10000) : (UInt16.ofNat n).toNat = n :=
  UInt16.toNat_ofNat_of_lt' (by simpa using h)

/-- A decoder that meets a character's code units reads that character
and goes on. -/
theorem decodeUtf16_utf16Char (c : Char) (rest : List UInt16) :
    decodeUtf16 (utf16Char c ++ rest) = c :: decodeUtf16 rest := by
  have hsur := char_not_surrogate c
  by_cases hc : c.toNat < 0x10000
  · have hu : (UInt16.ofNat c.toNat).toNat = c.toNat := unit_toNat hc
    have hhigh : isHighSurrogate (UInt16.ofNat c.toNat) = false := by
      simp only [isHighSurrogate, hu, Bool.and_eq_false_iff, decide_eq_false_iff_not]
      omega
    have hlow : isLowSurrogate (UInt16.ofNat c.toNat) = false := by
      simp only [isLowSurrogate, hu, Bool.and_eq_false_iff, decide_eq_false_iff_not]
      omega
    have hunit : ofUnit (UInt16.ofNat c.toNat) = c := by
      simp [ofUnit, hhigh, hlow, hu]
    rw [utf16Char, if_pos hc]
    cases rest with
    | nil => simp [decodeUtf16, hunit]
    | cons v rest => simp [decodeUtf16, hhigh, hunit]
  · have hlt := char_toNat_lt c
    have hhi : (UInt16.ofNat (0xD800 + (c.toNat - 0x10000) / 0x400)).toNat =
        0xD800 + (c.toNat - 0x10000) / 0x400 := unit_toNat (by omega)
    have hlo : (UInt16.ofNat (0xDC00 + (c.toNat - 0x10000) % 0x400)).toNat =
        0xDC00 + (c.toNat - 0x10000) % 0x400 := unit_toNat (by omega)
    have hpair : (isHighSurrogate (UInt16.ofNat (0xD800 + (c.toNat - 0x10000) / 0x400)) &&
        isLowSurrogate (UInt16.ofNat (0xDC00 + (c.toNat - 0x10000) % 0x400))) = true := by
      simp only [isHighSurrogate, isLowSurrogate, hhi, hlo, Bool.and_eq_true, decide_eq_true_eq]
      omega
    have hchar : ofPair (UInt16.ofNat (0xD800 + (c.toNat - 0x10000) / 0x400))
        (UInt16.ofNat (0xDC00 + (c.toNat - 0x10000) % 0x400)) = c := by
      have hval : 0x10000 + (c.toNat - 0x10000) / 0x400 * 0x400 + (c.toNat - 0x10000) % 0x400 =
          c.toNat := by omega
      rw [ofPair, hhi, hlo, Nat.add_sub_cancel_left, Nat.add_sub_cancel_left, hval,
        Char.ofNat_toNat]
    rw [utf16Char, if_neg hc, List.cons_append, List.cons_append, List.nil_append, decodeUtf16,
      if_pos hpair, hchar]

theorem decodeUtf16_utf16 (cs : List Char) : decodeUtf16 (utf16 cs) = cs := by
  induction cs with
  | nil => rfl
  | cons c cs ih => rw [utf16, List.flatMap_cons, decodeUtf16_utf16Char, ← utf16, ih]

theorem decodeUtf16_ne_nil {s : List UInt16} (h : s ≠ []) : decodeUtf16 s ≠ [] := by
  match s with
  | [u] => simp [decodeUtf16]
  | u :: v :: rest =>
    rw [decodeUtf16]
    split
    · exact List.cons_ne_nil _ _
    · exact List.cons_ne_nil _ _

/-! ## Bytes -/

theorem utf8_cons (c : Char) (cs : List Char) :
    utf8 (c :: cs) = String.utf8EncodeChar c ++ utf8 cs := List.flatMap_cons

theorem utf8_length_pos {cs : List Char} (h : cs ≠ []) : 0 < (utf8 cs).length := by
  cases cs with
  | nil => exact absurd rfl h
  | cons c cs =>
    have hc : 0 < (String.utf8EncodeChar c).length := by
      rw [String.length_utf8EncodeChar]
      exact Char.utf8Size_pos c
    rw [utf8_cons, List.length_append]
    omega

/-- Write whole characters while they fit in `cap` bytes. -/
def writeUtf8 : Nat → List Char → List UInt8
  | _, [] => []
  | cap, c :: cs =>
      if (String.utf8EncodeChar c).length ≤ cap then
        String.utf8EncodeChar c ++ writeUtf8 (cap - (String.utf8EncodeChar c).length) cs
      else []

theorem writeUtf8_eq : ∀ {cap : Nat} {cs : List Char}, (utf8 cs).length ≤ cap →
    writeUtf8 cap cs = utf8 cs
  | _, [], _ => rfl
  | cap, c :: cs, h => by
      rw [utf8_cons, List.length_append] at h
      rw [writeUtf8, if_pos (by omega), writeUtf8_eq (by omega), utf8_cons]

/-! ## NUL -/

/-- The bytes before the first NUL: what a `char*` is read as. -/
def cString (bytes : List UInt8) : List UInt8 := bytes.takeWhile (· ≠ 0)

theorem cString_cString (bytes : List UInt8) : cString (cString bytes) = cString bytes :=
  List.takeWhile_idem

theorem cString_eq_self_iff {bytes : List UInt8} : cString bytes = bytes ↔ 0 ∉ bytes := by
  induction bytes with
  | nil => simp [cString]
  | cons b bytes ih =>
    by_cases hb : b = 0
    · subst hb
      simp [cString]
    · have hstep : cString (b :: bytes) = b :: cString bytes := by
        rw [cString, List.takeWhile_cons_of_pos (by simpa using hb), cString]
      rw [hstep, List.cons.injEq, List.mem_cons, ih]
      simp [Ne.symm hb]

theorem zero_mem_utf16Char (c : Char) : 0 ∈ utf16Char c ↔ c.toNat = 0 := by
  have hlt := char_toNat_lt c
  have hzero : ∀ {n : Nat}, n < 0x10000 → (0 = UInt16.ofNat n ↔ n = 0) := by
    intro n hn
    rw [← UInt16.toNat_inj, unit_toNat hn]
    exact eq_comm
  by_cases hc : c.toNat < 0x10000
  · rw [utf16Char, if_pos hc, List.mem_singleton]
    exact hzero hc
  · rw [utf16Char, if_neg hc, List.mem_cons, List.mem_singleton, hzero (by omega),
      hzero (by omega)]
    omega

/-- A lead or continuation byte of a multi-byte character is at least 0x80. -/
theorem zero_mem_utf8EncodeChar (c : Char) : 0 ∈ String.utf8EncodeChar c ↔ c.toNat = 0 := by
  have hlt := char_toNat_lt c
  have hzero : ∀ {n : Nat}, n < 256 → (0 = UInt8.ofNat n ↔ n = 0) := by
    intro n hn
    rw [← UInt8.toNat_inj, UInt8.toNat_ofNat_of_lt' (by simpa using hn)]
    exact eq_comm
  have hval : c.val.toNat = c.toNat := rfl
  fun_cases String.utf8EncodeChar c with
  | case1 v h =>
    rw [List.mem_singleton, hzero (by omega)]
    omega
  | case2 v h1 h2 =>
    rw [List.mem_cons, List.mem_singleton, hzero (by omega), hzero (by omega)]
    omega
  | case3 v h1 h2 h3 =>
    rw [List.mem_cons, List.mem_cons, List.mem_singleton, hzero (by omega), hzero (by omega),
      hzero (by omega)]
    omega
  | case4 v h1 h2 h3 =>
    rw [List.mem_cons, List.mem_cons, List.mem_cons, List.mem_singleton, hzero (by omega),
      hzero (by omega), hzero (by omega), hzero (by omega)]
    omega

/-- A NUL is a NUL in both encodings. -/
theorem zero_mem_utf8_iff (cs : List Char) : 0 ∈ utf8 cs ↔ 0 ∈ utf16 cs := by
  simp [utf8, utf16, zero_mem_utf16Char, zero_mem_utf8EncodeChar]

theorem cString_utf8 {cs : List Char} : cString (utf8 cs) = utf8 cs ↔ 0 ∉ utf16 cs := by
  rw [cString_eq_self_iff, zero_mem_utf8_iff]

/-- The bytes of a text are cut where the text is. -/
theorem cString_utf8_eq (cs : List Char) :
    cString (utf8 cs) = utf8 (cs.takeWhile (fun c => c.toNat ≠ 0)) := by
  induction cs with
  | nil => rfl
  | cons c cs ih =>
    rw [utf8_cons, cString]
    by_cases hc : c.toNat = 0
    · have hzero : c = Char.ofNat 0 := by
        rw [← Char.ofNat_toNat c, hc]
      rw [hzero]
      rfl
    · have hall : ∀ b ∈ String.utf8EncodeChar c, decide (b ≠ 0) = true := by
        intro b hb
        rw [decide_eq_true_iff]
        rintro rfl
        exact hc ((zero_mem_utf8EncodeChar c).mp hb)
      rw [List.takeWhile_append_of_pos hall, List.takeWhile_cons_of_pos (by simpa using hc),
        utf8_cons, ← ih, cString]

/-! ## Reading bytes -/

/-- One U+FFFD for each byte that begins no character. -/
def decodeUtf8 : List UInt8 → List Char
  | [] => []
  | b :: rest =>
      match (b :: rest).toByteArray.utf8DecodeChar? 0 with
      | some c => c :: decodeUtf8 (rest.drop (c.utf8Size - 1))
      | none => replacement :: decodeUtf8 rest
termination_by bytes => bytes.length

theorem decodeUtf8_utf8EncodeChar (c : Char) (rest : List UInt8) :
    decodeUtf8 (String.utf8EncodeChar c ++ rest) = c :: decodeUtf8 rest := by
  have hlen := String.length_utf8EncodeChar c
  have hpos := Char.utf8Size_pos c
  have hread := @ByteArray.utf8DecodeChar?_utf8EncodeChar_append rest.toByteArray c
  rw [← List.toByteArray_append] at hread
  cases henc : String.utf8EncodeChar c with
  | nil =>
    rw [henc] at hlen
    simp only [List.length_nil] at hlen
    omega
  | cons b bs =>
    rw [henc] at hlen hread
    rw [List.cons_append] at hread ⊢
    have hbs : c.utf8Size - 1 = bs.length := by
      rw [List.length_cons] at hlen
      omega
    rw [decodeUtf8, hread]
    simp only
    rw [hbs, List.drop_left]

theorem decodeUtf8_utf8 (cs : List Char) : decodeUtf8 (utf8 cs) = cs := by
  induction cs with
  | nil => rw [utf8, List.flatMap_nil, decodeUtf8]
  | cons c cs ih => rw [utf8_cons, decodeUtf8_utf8EncodeChar, ih]

end AgoraRecording.Lib.Utf
