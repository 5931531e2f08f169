import ItemTable.Proofs.Number.WholeNumbers
import ItemTable.Value
import Mathlib.Algebra.Field.Rat
import Mathlib.Algebra.Order.Field.Power
import Mathlib.Algebra.Order.Ring.Rat
import Mathlib.Tactic.FieldSimp
import Mathlib.Tactic.Positivity

/-!
# The exact value of a number text

The value of a finite number is read off its parts: the whole digits, the digits behind the point as
parts of a power of ten, and the exponent, which moves the point. No digit is lost, whatever their
number is. The reader keeps all digits in one whole number and moves the point itself; the value is
the same (`magnitude_eq`).
-/
namespace ItemTable.Number

/-- The number or its opposite. -/
def signed (negative : Bool) (q : ℚ) : ℚ := if negative then -q else q

theorem signed_not (negative : Bool) (q : ℚ) : signed (!negative) q = -signed negative q := by
  cases negative with
  | false => rfl
  | true => exact (neg_neg q).symm

namespace Numeral

/-- What the digits of a finite number write, without its sign. -/
def magnitude (whole fraction : List Char) (exponent : Option (Bool × List Char)) : ℚ :=
  (decimalValue whole + decimalValue fraction / 10 ^ fraction.length) *
    10 ^ writtenExponent exponent

/-- The point may as well stand behind all digits. -/
theorem magnitude_eq (whole fraction : List Char) (exponent : Option (Bool × List Char)) :
    magnitude whole fraction exponent =
      significand whole fraction * 10 ^ (writtenExponent exponent - fraction.length) := by
  have hten : (10 : ℚ) ≠ 0 := by norm_num
  rw [magnitude, significand, decimalValue_append, zpow_sub₀ hten, zpow_natCast]
  push_cast
  field_simp

theorem magnitude_nonneg (whole fraction : List Char) (exponent : Option (Bool × List Char)) :
    0 ≤ magnitude whole fraction exponent := by
  rw [magnitude]
  positivity

/-- The exact value of a finite number. -/
def value? : Numeral → Option ℚ
  | finite negative whole fraction exponent =>
    some (signed negative (magnitude whole fraction exponent))
  | infinite _ | notANumber => none

end Numeral

/-- What a text writes, to the last digit; nothing if it is no finite number. -/
def exactValue? (text : String) : Option ℚ := (Numeral.ofText? text).bind Numeral.value?

namespace Numeral

theorem exactValue?_of_writes {text : String} {negative : Bool} {whole fraction : List Char}
    {exponent : Option (Bool × List Char)}
    (h : Writes text.toList (.finite negative whole fraction exponent)) :
    exactValue? text = some (signed negative (magnitude whole fraction exponent)) := by
  rw [exactValue?, ofText?_eq_finite_iff.2 h]
  rfl

/-- A number whose nearest binary64 number is finite is written with digits. -/
theorem exists_finite {x : Numeral} (h : x.toDouble.isFinite = true) :
    ∃ negative whole fraction exponent, x = .finite negative whole fraction exponent := by
  cases x with
  | finite negative whole fraction exponent => exact ⟨negative, whole, fraction, exponent, rfl⟩
  | infinite | notANumber => cases h

end Numeral

end ItemTable.Number

namespace ItemTable.AttributeValue

open Number

/-- What the checks ask of a number: its text is one, and the nearest binary64 number is finite. -/
theorem finiteNumber?_eq_some_iff {v : AttributeValue} {d : Double} :
    v.finiteNumber? = some d ↔ ∃ text x, v = .number text ∧ Numeral.ofText? text = some x ∧
      x.toDouble = d ∧ d.isFinite = true := by
  unfold finiteNumber?
  rw [Option.filter_eq_some_iff]
  cases v with
  | number text =>
    rw [asNumber?, Option.bind_some, Option.map_eq_some_iff]
    constructor
    · rintro ⟨⟨x, hx, hd⟩, hfinite⟩
      exact ⟨text, x, rfl, hx, hd, hfinite⟩
    · rintro ⟨_, x, heq, hx, hd, hfinite⟩
      cases heq
      exact ⟨⟨x, hx, hd⟩, hfinite⟩
  | text | binary | textSet | numberSet | binarySet | boolean | null | list | map =>
    simp [asNumber?]

end ItemTable.AttributeValue
