import ItemTable.Number.Double

/-!
The shortest decimal that reads back to a binary64 number, and the two ways it is written.

Of all decimals that round to a number those with the fewest digits are taken, of these the one
nearest to the number; a tie goes as `Tie` says.
-/
namespace ItemTable.Number

/-- The decimal `digits * 10 ^ exponent`. -/
structure Decimal where
  digits : Nat
  exponent : Int
deriving DecidableEq, Repr

/-- Which of two equally near decimals is taken. -/
inductive Tie where
  | up
  | toEven
deriving DecidableEq

/-- Compares `a * 10 ^ i` with `b * 2 ^ j`. -/
def compareScaled (a : Nat) (i : Int) (b : Nat) (j : Int) : Ordering :=
  compare ((a * Nat.pow 10 i.toNat) <<< (-j).toNat) ((b * Nat.pow 10 (-i).toNat) <<< j.toNat)

namespace Double

/-- Four times the least significand that still rounds to the number: half a step below it, and a
quarter of a step below a power of two. -/
def lowEnd (d : Double) : Nat :=
  if d.size % hiddenBit = 0 ∧ hiddenBit < d.size then 4 * d.significand - 1
  else 4 * d.significand - 2

/-- Whether a decimal rounds to the number. An end of the interval does so when the significand is
even. -/
def readsBack (d : Double) (x : Decimal) : Bool :=
  let even := d.significand % 2 == 0
  let low := compareScaled x.digits x.exponent d.lowEnd (d.step - 2)
  let high := compareScaled x.digits x.exponent (4 * d.significand + 2) (d.step - 2)
  (low == .gt || (even && low == .eq)) && (high == .lt || (even && high == .eq))

/-- The least `k` with the number below `10 ^ k`. -/
def magnitude (d : Double) : Int :=
  let guess := ((d.significand.log2 : Int) + d.step) * 30103 / 100000
  ((List.range 4).map fun i : Nat => guess - 1 + (i : Int)).find?
    (fun k => compareScaled 1 k d.significand d.step == .gt) |>.getD (guess + 3)

/-- The two neighbours of the number among the multiples of `10 ^ place`; of those that read back
the nearer. -/
def onGrid (tie : Tie) (d : Double) (place : Int) : Option Decimal :=
  let num := d.numerator * Nat.pow 10 (-place).toNat
  let den := d.denominator * Nat.pow 10 place.toNat
  let low := num / den
  let lower : Decimal := ⟨low, place⟩
  let upper : Decimal := ⟨low + 1, place⟩
  match d.readsBack lower, d.readsBack upper with
  | false, false => none
  | true, false => some lower
  | false, true => some upper
  | true, true =>
    match compare (2 * (num % den)) den with
    | .lt => some lower
    | .gt => some upper
    | .eq =>
      match tie with
      | .up => some upper
      | .toEven => some (if low % 2 = 0 then lower else upper)

/-- Moves trailing zeros of the digits into the exponent. -/
def stripZeros : Nat → Decimal → Decimal
  | 0, x => x
  | fuel + 1, x =>
    if x.digits ≠ 0 ∧ x.digits % 10 = 0 then stripZeros fuel ⟨x.digits / 10, x.exponent + 1⟩ else x

/-- The shortest decimal that rounds to a finite number. Seventeen digits always suffice. -/
def shortest (tie : Tie) (d : Double) : Decimal :=
  if d.size = 0 then ⟨0, 0⟩
  else
    let k := d.magnitude
    let found := (List.range 17).findSome? fun n => d.onGrid tie (k - (n + 1 : Nat))
    stripZeros 20 (found.getD ⟨d.significand, d.step⟩)

end Double

def Decimal.text (x : Decimal) : List Char := Nat.toDigits 10 x.digits

/-- Positional notation of a decimal: no exponent, and no point in a whole number. -/
def Decimal.positional (x : Decimal) : List Char :=
  let digits := x.text
  if 0 ≤ x.exponent then
    if x.digits = 0 then ['0'] else digits ++ List.replicate x.exponent.toNat '0'
  else
    let places := (-x.exponent).toNat
    if places < digits.length then
      digits.take (digits.length - places) ++ '.' :: digits.drop (digits.length - places)
    else '0' :: '.' :: (List.replicate (places - digits.length) '0' ++ digits)

/-- The sign of a number as a text. -/
def Double.sign (d : Double) : List Char := if d.negative then ['-'] else []

/-- A number in full: positional, ties up, the sign of zero kept. -/
def Double.inFull (d : Double) : String :=
  if d.isNaN then "NaN"
  else if d.isFinite then String.ofList (d.sign ++ (d.shortest .up).positional)
  else String.ofList (d.sign ++ "inf".toList)

/-- A finite number in short: positional with at least one place after the point while the point
stands near the digits, else with an exponent, whose sign is always written. -/
def Double.inShort (d : Double) : String :=
  let x := d.shortest .toEven
  let digits := x.text
  let point : Int := digits.length + x.exponent
  let body :=
    if 0 ≤ x.exponent ∧ point ≤ 16 then x.positional ++ ['.', '0']
    else if -5 < point ∧ point ≤ 16 then x.positional
    else
      let fraction := digits.drop 1
      let exponent := point - 1
      digits.take 1 ++ (if fraction.isEmpty then [] else '.' :: fraction) ++
        'e' :: (if exponent < 0 then '-' else '+') :: Nat.toDigits 10 exponent.natAbs
  String.ofList (d.sign ++ body)

end ItemTable.Number
