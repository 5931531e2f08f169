import ItemTable.Number.Digits
import ItemTable.Number.Double

/-!
Number texts: an optional sign, then digits with an optional point and an optional exponent, or one
of the words for infinity and for no number.

A numeral keeps its digits as they are written. `significand` and `exponentValue` give its exact
decimal value, `toDouble` the nearest binary64 number.
-/
namespace ItemTable.Number

/-- A number text. At least one of `whole` and `fraction` holds a digit. -/
inductive Numeral where
  | finite (negative : Bool) (whole fraction : List Char) (exponent : Option (Bool × List Char))
  | infinite (negative : Bool)
  | notANumber
deriving DecidableEq, Repr

namespace Numeral

/-- An optional sign; true for minus. -/
def sign (cs : List Char) : Bool × List Char :=
  match cs with
  | '-' :: rest => (true, rest)
  | '+' :: rest => (false, rest)
  | all => (false, all)

/-- The text of an exponent, which must reach the end: nothing, or a mark and at least one digit. -/
def exponentPart? (cs : List Char) : Option (Option (Bool × List Char)) :=
  match cs with
  | [] => some none
  | mark :: rest =>
    if mark = 'e' ∨ mark = 'E' then
      let (negative, digits) := sign rest
      if digits.isEmpty || digits.any (fun c => !c.isDigit) then none
      else some (some (negative, digits))
    else none

/-- Digits with an optional point and an optional exponent. -/
def unsigned? (negative : Bool) (cs : List Char) : Option Numeral :=
  let whole := cs.takeWhile Char.isDigit
  let (fraction, tail) := match cs.dropWhile Char.isDigit with
    | '.' :: rest => (rest.takeWhile Char.isDigit, rest.dropWhile Char.isDigit)
    | rest => ([], rest)
  if whole.isEmpty && fraction.isEmpty then none
  else (exponentPart? tail).map (.finite negative whole fraction)

/-- The words for infinity and for no number, in any case. -/
def word? (negative : Bool) (cs : List Char) : Option Numeral :=
  let lower := cs.map Char.toLower
  if lower = "inf".toList ∨ lower = "infinity".toList then some (.infinite negative)
  else if lower = "nan".toList then some .notANumber
  else none

/-- Reads a whole text as a number. -/
def ofText? (text : String) : Option Numeral :=
  let (negative, rest) := sign text.toList
  (unsigned? negative rest).or (word? negative rest)

/-- All digits before the exponent, as one whole number. -/
def significand (whole fraction : List Char) : Nat := decimalValue (whole ++ fraction)

def writtenExponent : Option (Bool × List Char) → Int
  | none => 0
  | some (negative, digits) =>
    let n : Int := decimalValue digits
    if negative then -n else n

/-- An exponent above this one takes no further digits, which only a numeral of tens of thousands of
digits could show. -/
def exponentCeiling : Nat := 0x10000

/-- The written exponent as far as its digits are read. -/
def readExponent : Option (Bool × List Char) → Int
  | none => 0
  | some (negative, digits) =>
    let n := digits.foldl
      (fun n c => if n < exponentCeiling then n * 10 + digitValue c else n) 0
    if negative then -(n : Int) else n

def toDouble : Numeral → Double
  | .finite negative whole fraction exponent =>
    let leading := (whole ++ fraction).dropWhile (· = '0')
    let scale := readExponent exponent - fraction.length
    if decimalCeiling < leading.length + scale ∧ !leading.isEmpty then .infinite negative
    else ⟨negative, sizeOfDecimal (significand whole fraction) scale⟩
  | .infinite negative => .infinite negative
  | .notANumber => .notANumber

end Numeral

end ItemTable.Number
