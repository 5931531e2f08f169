/-!
Binary floating point with 53 significant bits, as whole numbers only.

A number is its sign and its *size*, the bit pattern without the sign bit. Sizes are ordered as the
numbers they stand for, so that comparing numbers is comparing sizes. `sizeOfRatio` rounds a
quotient to the nearest size, ties to the even one.
-/
namespace ItemTable.Number

/-- A binary64 number: a sign, and a bit pattern without the sign bit. -/
structure Double where
  negative : Bool
  size : Nat
deriving DecidableEq, Repr

/-- The size of an infinity; larger sizes stand for no number. -/
def infiniteSize : Nat := 0x7FF0000000000000

/-- The leading bit of a significand, which a size does not store; the step is counted from it
on. -/
def hiddenBit : Nat := 0x10000000000000

/-- The quotient rounded to the nearest whole number, ties to the even one. -/
def roundRatio (num den : Nat) : Nat :=
  let low := num / den
  let rest := 2 * (num % den)
  if rest < den then low
  else if den < rest then low + 1
  else low + low % 2

/-- The exponent `e` with `2 ^ e ≤ num / den < 2 ^ (e + 1)`, for positive arguments. -/
def binaryExponent (num den : Nat) : Int :=
  let e : Int := (num.log2 : Int) - den.log2
  if den <<< e.toNat ≤ num <<< (-e).toNat then e else e - 1

/-- The size nearest to a quotient; from half a step above the largest finite size on it is the
infinite one. -/
def sizeOfRatio (num den : Nat) : Nat :=
  if num = 0 then 0
  else
    let step := max (binaryExponent num den - 52) (-1074)
    let significand := roundRatio (num <<< (-step).toNat) (den <<< step.toNat)
    min infiniteSize ((step + 1074).toNat * hiddenBit + significand)

/-- A decimal exponent above this one makes every positive whole number infinite. -/
def decimalCeiling : Int := 400

/-- The size nearest to `significand * 10 ^ exponent`. The two guards only spare long products: what
they decide is far outside the finite sizes. -/
def sizeOfDecimal (significand : Nat) (exponent : Int) : Nat :=
  if significand = 0 then 0
  else if decimalCeiling ≤ exponent then infiniteSize
  else if exponent + significand.log2 + decimalCeiling ≤ 0 then 0
  else sizeOfRatio (significand * Nat.pow 10 exponent.toNat) (Nat.pow 10 (-exponent).toNat)

namespace Double

def infinite (negative : Bool) : Double := ⟨negative, infiniteSize⟩

/-- What an invalid operation gives. -/
def notANumber : Double := ⟨false, 0x7FF8000000000000⟩

def isFinite (d : Double) : Bool := d.size < infiniteSize

def isNaN (d : Double) : Bool := infiniteSize < d.size

def bits (d : Double) : Nat := (if d.negative then 0x8000000000000000 else 0) + d.size

/-- The place of a finite number in ascending order; both zeros stand at zero. -/
def rank (d : Double) : Int := if d.negative then -d.size else d.size

/-- A finite size is `significand * 2 ^ step`. -/
def significand (d : Double) : Nat :=
  if d.size < hiddenBit then d.size else hiddenBit + d.size % hiddenBit

def step (d : Double) : Int :=
  if d.size < hiddenBit then -1074 else (d.size / hiddenBit : Nat) - 1075

/-- The numerator of a finite number's absolute value over `denominator`. -/
def numerator (d : Double) : Nat := d.significand <<< d.step.toNat

def denominator (d : Double) : Nat := 1 <<< (-d.step).toNat

/-- Sixteen lower-case hexadecimal digits. -/
def hex (d : Double) : String :=
  let digits := Nat.toDigits 16 d.bits
  String.ofList (List.replicate (16 - digits.length) '0' ++ digits)

end Double

end ItemTable.Number
