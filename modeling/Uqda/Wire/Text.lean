import Uqda.Bits.Octet

/-!
# Numerals in text

Hexadecimal strings and decimal numerals as bytes of ASCII text, each with a writer
and a reader.  The hexadecimal reader takes digits of either case and needs two of
them per byte.  The decimal reader takes one or more digits, leading zeros among
them, and refuses a number above a bound.
-/

namespace Uqda.Wire

open Uqda.Bits

/-! ## Hexadecimal strings -/

/-- The value of a hexadecimal digit. -/
def hexValue (digit : UInt8) : Option UInt8 :=
  if 48 ≤ digit ∧ digit ≤ 57 then some (digit - 48)
  else if 97 ≤ digit ∧ digit ≤ 102 then some (digit - 87)
  else if 65 ≤ digit ∧ digit ≤ 70 then some (digit - 55)
  else none

/-- The lower-case digit of a value below sixteen. -/
def hexDigit (value : UInt8) : UInt8 :=
  if value < 10 then value + 48 else value + 87

/-- Two digits per byte, the higher half first. -/
def hexEncode : List UInt8 → List UInt8
  | [] => []
  | byte :: bytes => hexDigit (byte / 16) :: hexDigit (byte % 16) :: hexEncode bytes

/-- The bytes written by a string of digits. -/
def hexDecode : List UInt8 → Option (List UInt8)
  | [] => some []
  | [_] => none
  | high :: low :: text =>
      match hexValue high, hexValue low with
      | some first, some second => (hexDecode text).map fun bytes => (first * 16 + second) :: bytes
      | _, _ => none

/-- The two digits of a byte read back as its halves. -/
theorem hexValue_halves (byte : UInt8) :
    hexValue (hexDigit (byte / 16)) = some (byte / 16) ∧
      hexValue (hexDigit (byte % 16)) = some (byte % 16) ∧
        byte / 16 * 16 + byte % 16 = byte := by
  revert byte
  exact forall_octet (by decide +kernel)

@[simp]
theorem hexDecode_hexEncode (bytes : List UInt8) :
    hexDecode (hexEncode bytes) = some bytes := by
  induction bytes with
  | nil => rfl
  | cons byte bytes ih =>
      obtain ⟨high, low, whole⟩ := hexValue_halves byte
      simp [hexEncode, hexDecode, high, low, whole, ih]

/-! ## Decimal numerals -/

/-- The value of a decimal digit. -/
def decimalValue (digit : UInt8) : Option Nat :=
  if 48 ≤ digit ∧ digit ≤ 57 then some (digit.toNat - 48) else none

/-- The digit of a value below ten. -/
def decimalDigit (value : Nat) : UInt8 :=
  UInt8.ofNat (48 + value)

/-- The number that a string of digits appends to another. -/
def readDecimal : Nat → List UInt8 → Option Nat
  | value, [] => some value
  | value, digit :: text =>
      (decimalValue digit).bind fun last => readDecimal (10 * value + last) text

/-- The number of a numeral, if it is not above the bound. -/
def parseDecimal (bound : Nat) (text : List UInt8) : Option Nat :=
  if text = [] then none else (readDecimal 0 text).filter (· ≤ bound)

/-- The numeral of a number, without leading zeros. -/
def formatDecimal (n : Nat) : List UInt8 :=
  if n < 10 then [decimalDigit n] else formatDecimal (n / 10) ++ [decimalDigit (n % 10)]

theorem decimalValue_decimalDigit {value : Nat} (small : value < 10) :
    decimalValue (decimalDigit value) = some value := by
  revert value
  decide

theorem readDecimal_append (value : Nat) (front back : List UInt8) :
    readDecimal value (front ++ back) =
      (readDecimal value front).bind fun read => readDecimal read back := by
  induction front generalizing value with
  | nil => rfl
  | cons digit front ih =>
      cases read : decimalValue digit with
      | none => simp [readDecimal, read]
      | some last => simp [readDecimal, read, ih]

theorem readDecimal_formatDecimal (n : Nat) : readDecimal 0 (formatDecimal n) = some n := by
  fun_induction formatDecimal n with
  | case1 n small => simp [readDecimal, decimalValue_decimalDigit small]
  | case2 n large ih =>
      have last : n % 10 < 10 := Nat.mod_lt n (by decide)
      rw [readDecimal_append, ih]
      simp [readDecimal, decimalValue_decimalDigit last, Nat.div_add_mod]

theorem formatDecimal_ne_nil (n : Nat) : formatDecimal n ≠ [] := by
  unfold formatDecimal
  split <;> simp

theorem parseDecimal_formatDecimal {bound n : Nat} (below : n ≤ bound) :
    parseDecimal bound (formatDecimal n) = some n := by
  rw [parseDecimal, if_neg (formatDecimal_ne_nil n), readDecimal_formatDecimal]
  simp [below]

end Uqda.Wire
