import ItemTable.Json.Document
import ItemTable.Number.Digits
import ItemTable.Number.Shortest

/-!
The binary64 number that a reader takes a JSON number for.

The reader gathers as many digits as fit into 64 bits and then multiplies or divides once by a power
of ten, rounding at each step. The result may differ from the nearest number in its last bit; it is
seen in messages only.
-/
namespace ItemTable.Json

open ItemTable.Number

/-- Sixty-four bits hold the numbers below this one. -/
def wordBound : Nat := 0x10000000000000000

/-- The digits that are gathered while the number stays below the bound, and what is left. -/
def gatherDigits (n : Nat) : List Char → Nat × List Char
  | [] => (n, [])
  | c :: rest =>
    if n * 10 + digitValue c < wordBound then gatherDigits (n * 10 + digitValue c) rest
    else (n, c :: rest)

/-- Rounds a product. -/
def timesSize (a b : Double) : Nat :=
  sizeOfRatio (a.numerator * b.numerator) (a.denominator * b.denominator)

/-- Rounds a quotient. -/
def overSize (a b : Double) : Nat :=
  sizeOfRatio (a.numerator * b.denominator) (a.denominator * b.numerator)

/-- A power of ten with an exponent up to 308. -/
def powerOfTen (n : Nat) : Double := ⟨false, sizeOfDecimal 1 n⟩

/-- The size of `significand * 10 ^ exponent` as the reader computes it; none if it is not
finite. -/
def scaledSize? (significand : Nat) (exponent : Int) : Option Nat :=
  let start : Double := ⟨false, sizeOfRatio significand 1⟩
  if 0 ≤ exponent then
    if significand = 0 then some 0
    else if exponent ≤ 308 then
      let size := timesSize start (powerOfTen exponent.toNat)
      if size < infiniteSize then some size else none
    else none
  else
    let places := (-exponent).toNat
    let lowered := Nat.repeat
      (fun d : Double => ⟨false, if d.size = 0 then 0 else overSize d (powerOfTen 308)⟩)
      (min 3 ((places - 1) / 308)) start
    if places ≤ 4 * 308 then some (overSize lowered (powerOfTen ((places - 1) % 308 + 1)))
    else some 0

namespace Literal

/-- An exponent with more digits than 32 bits hold. -/
def hugeExponent (n : Literal) : Bool :=
  match n.exponent with
  | none => false
  | some (_, digits) => 0x80000000 ≤ decimalValue digits

def exponentValue (n : Literal) : Int :=
  match n.exponent with
  | none => 0
  | some (negative, digits) =>
    let e : Int := decimalValue digits
    if negative then -e else e

/-- The number that the reader takes the literal for; none if it is too large. -/
def approximate? (n : Literal) : Option Double :=
  let (whole, lostWhole) := gatherDigits 0 n.whole
  let (significand, lostFraction) :=
    if n.fraction.isEmpty then (whole, []) else gatherDigits whole n.fraction
  let places : Int := n.fraction.length - lostFraction.length
  if n.hugeExponent then
    if significand = 0 ∨ n.exponentValue < 0 then some ⟨n.negative, 0⟩ else none
  else
    (scaledSize? significand (lostWhole.length - places + n.exponentValue)).map (⟨n.negative, ·⟩)

/-- How a reader that expects no number in particular classifies a literal. -/
inductive Reading where
  | whole (n : Int)
  | floating (d : Double)

/-- A whole number is kept if it is written without point and exponent and fits into 64 bits; minus
zero is a floating number. None if the number is too large for both. -/
def reading? (n : Literal) : Option Reading :=
  let size := decimalValue n.whole
  if n.fraction.isEmpty ∧ n.exponent.isNone ∧
      (if n.negative then 0 < size ∧ size ≤ 0x8000000000000000 else size < wordBound) then
    some (.whole (if n.negative then -size else size))
  else n.approximate?.map .floating

end Literal

end ItemTable.Json
