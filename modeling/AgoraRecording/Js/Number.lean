/-
AgoraRecording.Js.Number — JavaScript numbers, and the ones made of
strings.

A number is a double: a finite value, negative zero, an infinity or NaN.
`stringToNumber` is `StringToNumber`: white space is trimmed, the rest has
to be a numeric literal, and everything else is NaN. Which double stands
for the exact value of a literal is a parameter, `round`.

`stringToNumber_eq_nan` is what the literals have in common: a string with
a code unit that occurs in none of them, such as a colon, is not a number.
-/
import AgoraRecording.Js.Value
import Mathlib.Algebra.Order.Field.Rat

namespace AgoraRecording.Js

inductive JsDouble where
  | finite (value : Rat)
  | negZero
  | infinite (negative : Bool)
  | nan
  deriving DecidableEq, Repr

namespace JsDouble

def neg : JsDouble → JsDouble
  | finite value => if value = 0 then negZero else finite (-value)
  | negZero => finite 0
  | infinite negative => infinite (!negative)
  | nan => nan

/-- `ToInt32`. -/
def toInt32 : JsDouble → BitVec 32
  | finite value => BitVec.ofInt 32 (value.num.tdiv value.den)
  | negZero | infinite _ | nan => 0

/-- `Value::Int32Value` of a number that `Value::IsInt32` accepts, which -0
is not. -/
def asInt32 : JsDouble → Option Int
  | finite value =>
      if value.den = 1 ∧ -2 ^ 31 ≤ value.num ∧ value.num < 2 ^ 31 then some value.num else none
  | negZero | infinite _ | nan => none

/-- `Value::Uint32Value` of a number that `Value::IsUint32` accepts. -/
def asUint32 : JsDouble → Option UInt32
  | finite value =>
      if value.den = 1 ∧ 0 ≤ value.num ∧ value.num < 2 ^ 32 then
        some (UInt32.ofNat value.num.toNat)
      else none
  | negZero | infinite _ | nan => none

/-- A double divided by an `int`. The quotient of two finite values is
exact here. -/
def divInt : JsDouble → Int → JsDouble
  | finite value, d =>
      if d = 0 then (if value = 0 then nan else infinite (value < 0))
      else if value = 0 then (if d < 0 then negZero else finite 0)
      else finite (value / d)
  | negZero, d => if d = 0 then nan else if d < 0 then finite 0 else negZero
  | infinite negative, d => infinite (negative ^^ decide (d < 0))
  | nan, _ => nan

theorem asInt32_intCast {z : Int} (h : -2 ^ 31 ≤ z) (h' : z < 2 ^ 31) :
    (finite z).asInt32 = some z := by
  simp only [asInt32, Rat.den_intCast, Rat.num_intCast]
  rw [if_pos ⟨trivial, h, h'⟩]

theorem asUint32_toNat (u : UInt32) : (finite (u.toNat : Int)).asUint32 = some u := by
  have hlt := u.toNat_lt
  simp only [asUint32, Rat.den_intCast, Rat.num_intCast]
  rw [if_pos ⟨trivial, by omega, by omega⟩, Int.toNat_natCast, UInt32.ofNat_toNat]

/-- By a positive canvas a finite value is divided as a rational. -/
theorem divInt_finite (value : Rat) {d : Int} (h : 0 < d) :
    (finite value).divInt d = finite (value / d) := by
  rw [divInt, if_neg (Int.ne_of_gt h)]
  split
  · rename_i hzero
    rw [if_neg (Int.not_lt.mpr (Int.le_of_lt h)), hzero, zero_div]
  · rfl

end JsDouble

/-! ## Numeric literals -/

/-- `WhiteSpace` and `LineTerminator`. -/
def isWhiteSpace (u : UInt16) : Bool :=
  u ∈ [9, 10, 11, 12, 13, 32, 0xA0, 0xFEFF, 0x1680, 0x2028, 0x2029, 0x202F, 0x205F, 0x3000] ||
    (0x2000 ≤ u.toNat && u.toNat ≤ 0x200A)

def trim (s : JsString) : JsString :=
  ((s.dropWhile isWhiteSpace).reverse.dropWhile isWhiteSpace).reverse

def digitValue (u : UInt16) : Nat :=
  if u.toNat ≤ 57 then u.toNat - 48 else if u.toNat ≤ 70 then u.toNat - 55 else u.toNat - 87

def isDecimalDigit (u : UInt16) : Bool := 48 ≤ u.toNat && u.toNat ≤ 57

def isDigitOf (base : Nat) (u : UInt16) : Bool :=
  (isDecimalDigit u || (65 ≤ u.toNat && u.toNat ≤ 70) || (97 ≤ u.toNat && u.toNat ≤ 102)) &&
    digitValue u < base

def digitsValue (base : Nat) (ds : JsString) : Nat :=
  ds.foldl (fun n u => n * base + digitValue u) 0

/-- One or more digits. -/
def digits (base : Nat) (ds : JsString) : Option Nat :=
  if ds ≠ [] ∧ ds.all (isDigitOf base) = true then some (digitsValue base ds) else none

/-- `0x…`, `0o…` and `0b…`. -/
def nonDecimalLiteral : JsString → Option Nat
  | 48 :: 120 :: ds | 48 :: 88 :: ds => digits 16 ds
  | 48 :: 111 :: ds | 48 :: 79 :: ds => digits 8 ds
  | 48 :: 98 :: ds | 48 :: 66 :: ds => digits 2 ds
  | _ => none

def exponentPart : JsString → Option Int
  | [] => some 0
  | e :: rest =>
      if e = 101 ∨ e = 69 then
        match rest with
        | 43 :: ds => (digits 10 ds).map Int.ofNat
        | 45 :: ds => (digits 10 ds).map (fun n => -Int.ofNat n)
        | ds => (digits 10 ds).map Int.ofNat
      else none

/-- The digits after a point, and what follows them. -/
def fraction : JsString → JsString × JsString
  | 46 :: rest => (rest.takeWhile isDecimalDigit, rest.dropWhile isDecimalDigit)
  | rest => ([], rest)

/-- A mantissa and an exponent. -/
def unsignedDecimal (s : JsString) : Option Rat :=
  let whole := s.takeWhile isDecimalDigit
  let (frac, rest) := fraction (s.dropWhile isDecimalDigit)
  if whole = [] ∧ frac = [] then none
  else (exponentPart rest).map (fun e : Int =>
    (digitsValue 10 (whole ++ frac) : Rat) * (10 : Rat) ^ (e - (frac.length : Int)))

def unsignedLiteral (round : Rat → JsDouble) (s : JsString) : Option JsDouble :=
  if s = js "Infinity" then some (.infinite false) else (unsignedDecimal s).map round

def decimalLiteral (round : Rat → JsDouble) : JsString → Option JsDouble
  | 43 :: s => unsignedLiteral round s
  | 45 :: s => (unsignedLiteral round s).map JsDouble.neg
  | s => unsignedLiteral round s

/-- `StringToNumber`. -/
def stringToNumber (round : Rat → JsDouble) (s : JsString) : JsDouble :=
  let s := trim s
  if s = [] then .finite 0
  else match nonDecimalLiteral s with
    | some n => round n
    | none => (decimalLiteral round s).getD .nan

/-! ## What is not a number -/

/-- The code units of the literals: digits, letters, signs and the point. -/
def isNumeric (u : UInt16) : Bool :=
  isDecimalDigit u || (65 ≤ u.toNat && u.toNat ≤ 90) || (97 ≤ u.toNat && u.toNat ≤ 122) ||
    u ∈ [43, 45, 46]

theorem isNumeric_of_isDigitOf {base : Nat} {u : UInt16} (h : isDigitOf base u = true) :
    isNumeric u = true := by
  simp only [isDigitOf, isNumeric, Bool.and_eq_true, Bool.or_eq_true, decide_eq_true_eq] at h ⊢
  obtain ⟨(h | h) | h, -⟩ := h
  · exact Or.inl (Or.inl (Or.inl h))
  · exact Or.inl (Or.inl (Or.inr (by omega)))
  · exact Or.inl (Or.inr (by omega))

theorem digits_numeric {base : Nat} {ds : JsString} {n : Nat} (h : digits base ds = some n) :
    ∀ u ∈ ds, isNumeric u = true := by
  unfold digits at h
  split at h
  · rename_i hall
    exact fun u hu => isNumeric_of_isDigitOf (List.all_eq_true.mp hall.2 u hu)
  · cases h

theorem nonDecimalLiteral_numeric {s : JsString} {n : Nat} (h : nonDecimalLiteral s = some n) :
    ∀ u ∈ s, isNumeric u = true := by
  unfold nonDecimalLiteral at h
  split at h
  case h_7 => cases h
  all_goals
    intro u hu
    rw [List.mem_cons, List.mem_cons] at hu
    rcases hu with rfl | rfl | hu
    · decide
    · decide
    · exact digits_numeric h u hu

theorem exponentPart_numeric {s : JsString} {e : Int} (h : exponentPart s = some e) :
    ∀ u ∈ s, isNumeric u = true := by
  unfold exponentPart at h
  split at h
  · exact fun u hu => absurd hu List.not_mem_nil
  · rename_i rest
    split at h
    · rename_i he
      refine List.forall_mem_cons.mpr ⟨by rcases he with rfl | rfl <;> decide, ?_⟩
      split at h
      all_goals
        obtain ⟨n, hn, -⟩ := Option.map_eq_some_iff.mp h
      · exact List.forall_mem_cons.mpr ⟨by decide, digits_numeric hn⟩
      · exact List.forall_mem_cons.mpr ⟨by decide, digits_numeric hn⟩
      · exact digits_numeric hn
    · cases h

theorem numeric_of_dropWhile {s : JsString}
    (h : ∀ u ∈ s.dropWhile isDecimalDigit, isNumeric u = true) : ∀ u ∈ s, isNumeric u = true := by
  intro u hu
  rw [← List.takeWhile_append_dropWhile (p := isDecimalDigit) (l := s), List.mem_append] at hu
  rcases hu with hu | hu
  · have hdigit := List.all_eq_true.mp List.all_takeWhile u hu
    simp [isNumeric, hdigit]
  · exact h u hu

theorem fraction_numeric {s : JsString} (h : ∀ u ∈ (fraction s).2, isNumeric u = true) :
    ∀ u ∈ s, isNumeric u = true := by
  unfold fraction at h
  split at h
  · exact List.forall_mem_cons.mpr ⟨by decide, numeric_of_dropWhile h⟩
  · exact h

theorem unsignedDecimal_numeric {s : JsString} {value : Rat} (h : unsignedDecimal s = some value) :
    ∀ u ∈ s, isNumeric u = true := by
  unfold unsignedDecimal at h
  simp only at h
  split at h
  · cases h
  · obtain ⟨e, he, -⟩ := Option.map_eq_some_iff.mp h
    exact numeric_of_dropWhile (fraction_numeric (exponentPart_numeric he))

theorem unsignedLiteral_numeric {round : Rat → JsDouble} {s : JsString} {value : JsDouble}
    (h : unsignedLiteral round s = some value) : ∀ u ∈ s, isNumeric u = true := by
  unfold unsignedLiteral at h
  split at h
  · rename_i hs
    rw [hs]
    exact List.all_eq_true.mp rfl
  · obtain ⟨q, hq, -⟩ := Option.map_eq_some_iff.mp h
    exact unsignedDecimal_numeric hq

theorem decimalLiteral_numeric {round : Rat → JsDouble} {s : JsString} {value : JsDouble}
    (h : decimalLiteral round s = some value) : ∀ u ∈ s, isNumeric u = true := by
  unfold decimalLiteral at h
  split at h
  · exact List.forall_mem_cons.mpr ⟨by decide, unsignedLiteral_numeric h⟩
  · obtain ⟨v, hv, -⟩ := Option.map_eq_some_iff.mp h
    exact List.forall_mem_cons.mpr ⟨by decide, unsignedLiteral_numeric hv⟩
  · exact unsignedLiteral_numeric h

/-- Trimming takes away nothing but white space. -/
theorem mem_trim {u : UInt16} {s : JsString} (h : u ∈ s) (hu : isWhiteSpace u = false) :
    u ∈ trim s := by
  have hkept : ∀ {l : JsString}, u ∈ l → u ∈ l.dropWhile isWhiteSpace := by
    intro l hl
    rw [← List.takeWhile_append_dropWhile (p := isWhiteSpace) (l := l), List.mem_append] at hl
    rcases hl with hl | hl
    · have hwhite := List.all_eq_true.mp List.all_takeWhile u hl
      rw [hu] at hwhite
      cases hwhite
    · exact hl
  exact List.mem_reverse.mpr (hkept (List.mem_reverse.mpr (hkept h)))

/-- **A string with a code unit no literal has is not a number.** -/
theorem stringToNumber_eq_nan (round : Rat → JsDouble) {s : JsString} {u : UInt16} (h : u ∈ s)
    (hwhite : isWhiteSpace u = false) (hnumeric : isNumeric u = false) :
    stringToNumber round s = .nan := by
  have hmem := mem_trim h hwhite
  have hno : ∀ {P : Prop}, (P → ∀ v ∈ trim s, isNumeric v = true) → ¬ P := by
    intro P hall hP
    rw [hall hP u hmem] at hnumeric
    cases hnumeric
  have hnil : trim s ≠ [] := List.ne_nil_of_mem hmem
  have hnone : nonDecimalLiteral (trim s) = none := by
    cases hval : nonDecimalLiteral (trim s) with
    | none => rfl
    | some n => exact absurd hval (hno nonDecimalLiteral_numeric)
  have hdecimal : decimalLiteral round (trim s) = none := by
    cases hval : decimalLiteral round (trim s) with
    | none => rfl
    | some v => exact absurd hval (hno decimalLiteral_numeric)
  simp only [stringToNumber, if_neg hnil, hnone, hdecimal, Option.getD_none]

end AgoraRecording.Js
