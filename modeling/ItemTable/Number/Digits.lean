/-! Decimal digit texts: their value, and the bounded whole numbers written with them. -/
namespace ItemTable.Number

def digitValue (c : Char) : Nat := c.toNat - '0'.toNat

theorem toNat_of_isDigit {c : Char} (h : c.isDigit = true) : 48 ≤ c.toNat ∧ c.toNat ≤ 57 := by
  obtain ⟨hleast, hgreatest⟩ := Bool.and_eq_true_iff.1 h
  exact ⟨of_decide_eq_true hleast, of_decide_eq_true hgreatest⟩

/-- The value of a digit text read so far: `high` holds the leading digits, `low` the last `width`
ones. Eighteen digits are gathered before they are added to the leading ones, which keeps the
number of long products small. -/
structure DigitRun where
  high : Nat
  low : Nat
  width : Nat

namespace DigitRun

/-- The number read so far. -/
def value (r : DigitRun) : Nat := r.high * Nat.pow 10 r.width + r.low

def push (r : DigitRun) (c : Char) : DigitRun :=
  if r.width = 18 then ⟨r.high * Nat.pow 10 18 + r.low, digitValue c, 1⟩
  else ⟨r.high, r.low * 10 + digitValue c, r.width + 1⟩

theorem value_push (r : DigitRun) (c : Char) : (r.push c).value = r.value * 10 + digitValue c := by
  unfold push value
  split
  · next h => simp [h]
  · simp [Nat.pow_succ, Nat.add_mul, Nat.mul_assoc, Nat.add_assoc]

end DigitRun

/-- The number that a text of decimal digits writes; the empty text writes zero. -/
def decimalValue (digits : List Char) : Nat := (digits.foldl DigitRun.push ⟨0, 0, 0⟩).value

/-- The value is the one read digit by digit from the left. -/
theorem decimalValue_eq_foldl (digits : List Char) :
    decimalValue digits = digits.foldl (fun n c => n * 10 + digitValue c) 0 := by
  have gather (r : DigitRun) : (digits.foldl DigitRun.push r).value =
      digits.foldl (fun n c => n * 10 + digitValue c) r.value := by
    induction digits generalizing r with
    | nil => rfl
    | cons c rest ih => rw [List.foldl_cons, ih, DigitRun.value_push, List.foldl_cons]
  simpa [decimalValue, DigitRun.value] using gather ⟨0, 0, 0⟩

/-- A whole number below `bound`: an optional plus sign and at least one digit. -/
def whole? (bound : Nat) (text : List Char) : Option Nat :=
  let digits := match text with
    | '+' :: rest => rest
    | all => all
  if digits.isEmpty || digits.any (fun c => !c.isDigit) then none
  else
    let n := decimalValue digits
    if n < bound then some n else none

end ItemTable.Number
