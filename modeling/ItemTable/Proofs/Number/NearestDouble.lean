import ItemTable.Proofs.Number.ExactValue
import ItemTable.Proofs.Number.NearestSize

/-!
# The number that a text is rounded to

A text that is rounded to a finite number is rounded to the nearest one
(`Numeral.isNearest_toDouble`). The reader stops in the middle of an exponent once it is above the
ceiling. That is harmless unless the numeral has digits by the tens of thousands, which could move
the point as far back: `Numeral.IsOrdinary` excludes only these.
-/
namespace ItemTable.Number

namespace Numeral

theorem le_foldl_digits (ds : List Char) (start : Nat) :
    start ≤ ds.foldl (fun n c => n * 10 + digitValue c) start := by
  induction ds generalizing start with
  | nil => exact Nat.le_refl _
  | cons d ds ih => exact le_trans (by omega) (ih (start * 10 + digitValue d))

/-- The digits of an exponent as they are read. -/
def readDigits (start : Nat) (ds : List Char) : Nat :=
  ds.foldl (fun n c => if n < exponentCeiling then n * 10 + digitValue c else n) start

theorem readDigits_ceiling (ds : List Char) {start : Nat} (h : exponentCeiling ≤ start) :
    readDigits start ds = start := by
  induction ds with
  | nil => rfl
  | cons d ds ih => rwa [readDigits, List.foldl_cons, if_neg (Nat.not_lt.2 h)]

/-- All digits are read, or what is read is at the ceiling at least, as the whole number is. -/
theorem readDigits_spec (ds : List Char) (start : Nat) :
    readDigits start ds = ds.foldl (fun n c => n * 10 + digitValue c) start ∨
      exponentCeiling ≤ readDigits start ds ∧
        exponentCeiling ≤ ds.foldl (fun n c => n * 10 + digitValue c) start := by
  induction ds generalizing start with
  | nil => exact .inl rfl
  | cons d ds ih =>
    by_cases hlow : start < exponentCeiling
    · rw [readDigits, List.foldl_cons, List.foldl_cons, if_pos hlow]
      exact ih _
    · have hceiling := Nat.not_lt.1 hlow
      rw [readDigits_ceiling _ hceiling]
      exact .inr ⟨hceiling, hceiling.trans (le_foldl_digits _ _)⟩

/-- An exponent is read to its last digit, or it is far beyond both ends of the order and what is
read is, too. -/
theorem readExponent_spec (exponent : Option (Bool × List Char)) :
    readExponent exponent = writtenExponent exponent ∨
      65536 ≤ readExponent exponent ∧ 65536 ≤ writtenExponent exponent ∨
      readExponent exponent ≤ -65536 ∧ writtenExponent exponent ≤ -65536 := by
  cases exponent with
  | none => exact .inl rfl
  | some marked =>
    obtain ⟨negative, ds⟩ := marked
    have hread : readExponent (some (negative, ds)) =
        if negative then -(readDigits 0 ds : Int) else readDigits 0 ds := rfl
    have hwritten : writtenExponent (some (negative, ds)) =
        if negative then -(decimalValue ds : Int) else decimalValue ds := rfl
    have hceiling : exponentCeiling = 65536 := rfl
    have hspec := readDigits_spec ds 0
    rw [← decimalValue_eq_foldl, hceiling] at hspec
    rw [hread, hwritten]
    cases negative with
    | false =>
      rw [if_neg Bool.false_ne_true, if_neg Bool.false_ne_true]
      omega
    | true =>
      rw [if_pos rfl, if_pos rfl]
      omega

/-- The exponent is read to its last digit, or the numeral has so few digits that it makes no
difference. -/
def IsOrdinary : Numeral → Prop
  | finite _ whole fraction exponent =>
    readExponent exponent = writtenExponent exponent ∨ whole.length + fraction.length ≤ 65000
  | infinite _ | notANumber => True

section Finite

variable {negative : Bool} {whole fraction : List Char} {exponent : Option (Bool × List Char)}

theorem significand_le (hwhole : AreDigits whole) (hfraction : AreDigits fraction) :
    (significand whole fraction : ℚ) ≤ 10 ^ ((whole.length + fraction.length : Nat) : Int) := by
  have hdigits : AreDigits (whole ++ fraction) := List.forall_mem_append.2 ⟨hwhole, hfraction⟩
  rw [← List.length_append, zpow_natCast]
  exact_mod_cast (decimalValue_lt hdigits).le

/-- A finite number has the size of its decimal. -/
theorem toDouble_eq (h : (finite negative whole fraction exponent).toDouble.isFinite = true) :
    (finite negative whole fraction exponent).toDouble =
      ⟨negative,
        sizeOfDecimal (significand whole fraction) (readExponent exponent - fraction.length)⟩ := by
  unfold toDouble at h ⊢
  simp only at h ⊢
  split at h
  · cases h
  · next hlow => rw [if_neg hlow]

theorem isMidmost_toDouble (hwhole : AreDigits whole) (hfraction : AreDigits fraction)
    (hordinary : (finite negative whole fraction exponent).IsOrdinary)
    (hfinite :
      sizeOfDecimal (significand whole fraction) (readExponent exponent - fraction.length) <
        infiniteSize) :
    IsMidmost (sizeOfDecimal (significand whole fraction) (readExponent exponent - fraction.length))
      (magnitude whole fraction exponent / Double.leastValue) := by
  have hread := isMidmost_sizeOfDecimal hfinite
  have hwidth := significand_le hwhole hfraction
  rw [magnitude_eq]
  obtain heq | ⟨hhigh, -⟩ | ⟨hlow, hlow'⟩ := readExponent_spec exponent
  · rwa [← heq]
  · obtain heq | hfew := hordinary
    · rwa [← heq]
    · have hzero : significand whole fraction = 0 := by
        by_contra hne
        have hceiling : decimalCeiling = 400 := rfl
        unfold sizeOfDecimal at hfinite
        rw [if_neg hne, if_pos (by omega)] at hfinite
        exact Nat.lt_irrefl _ hfinite
      simpa [hzero] using hread
  · obtain heq | hfew := hordinary
    · rwa [← heq]
    · rw [hread.eq_zero (two_mul_decimal_lt hwidth (by omega))]
      exact isMidmost_zero (two_mul_decimal_lt hwidth (by omega))

end Finite

/-- The finite number that an ordinary text is rounded to is nearest to the exact value of the
text. -/
theorem isNearest_toDouble {text : List Char} {x : Numeral} {q : ℚ} (hx : Writes text x)
    (hordinary : x.IsOrdinary) (hvalue : x.value? = some q) (hfinite : x.toDouble.isFinite = true) :
    x.toDouble.IsNearest q := by
  obtain ⟨-, hwhole, hfraction, -, -⟩ := hx
  cases hvalue
  have hdigits := hfraction.areDigits
  have heq := toDouble_eq hfinite
  rw [heq] at hfinite ⊢
  have hsize := of_decide_eq_true hfinite
  have hnearest := (isMidmost_toDouble hwhole hdigits hordinary hsize).isNearest
    (div_nonneg (magnitude_nonneg _ _ _) Double.leastValue_pos.le) hsize
  rw [div_mul_cancel₀ _ Double.leastValue_pos.ne'] at hnearest
  exact hnearest _

end Numeral

end ItemTable.Number
