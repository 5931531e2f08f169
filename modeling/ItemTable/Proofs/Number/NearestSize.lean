import ItemTable.Proofs.Number.DoubleValue

/-!
# Rounding to the nearest size

A quotient is scaled by a power of two until its whole part has 53 bits, or as far as the least
positive value allows, and then rounded to a whole number, ties to even. The size that this gives is
nearest to the quotient: the middles between it and its two neighbours enclose the quotient
(`isMidmost_sizeOfRatio`), and so no finite number is nearer (`IsMidmost.isNearest`).
-/
namespace ItemTable.Number

open Double

/-- The middles between a size and its neighbours enclose `r`, which is counted in multiples of the
least positive value. On a middle only the even one of the two sizes is taken. -/
structure IsMidmost (size : Nat) (r : ℚ) : Prop where
  above : 2 * r ≤ units size + units (size + 1)
  aboveTie : 2 * r = units size + units (size + 1) → size % 2 = 0
  below : ∀ lower, lower + 1 = size → units lower + units size ≤ 2 * r
  belowTie : ∀ lower, lower + 1 = size → units lower + units size = 2 * r → size % 2 = 0

/-- What is less than half of the least positive value is rounded to zero. -/
theorem isMidmost_zero {r : ℚ} (h : 2 * r < 1) : IsMidmost 0 r where
  above := by
    have hone : units (0 + 1) = 1 := rfl
    rw [hone, units_zero]
    push_cast
    linarith
  aboveTie _ := rfl
  below lower h := by omega
  belowTie lower h := by omega

theorem IsMidmost.eq_zero {size : Nat} {r : ℚ} (h : IsMidmost size r) (hr : 2 * r < 1) :
    size = 0 := by
  cases size with
  | zero => rfl
  | succ lower =>
    have hbelow := h.below lower rfl
    have hunits : 1 ≤ units (lower + 1) := Nat.one_le_of_lt (units_strictMono (Nat.succ_pos lower))
    have hcast : (1 : ℚ) ≤ units (lower + 1) := by exact_mod_cast hunits
    have hnonneg : (0 : ℚ) ≤ units lower := Nat.cast_nonneg _
    linarith

/-- No other place in the order is nearer, and a size that shares its nearness is even. -/
theorem IsMidmost.closest {size : Nat} {r : ℚ} (h : IsMidmost size r) (hr : 0 ≤ r) (rank : Int) :
    |r - units size| ≤ |r - unitsOfRank rank| ∧
      (rank ≠ size → |r - unitsOfRank rank| = |r - units size| → size % 2 = 0) := by
  obtain hlow | rfl | hhigh := lt_trichotomy rank size
  · have hlt : (unitsOfRank rank : ℚ) < units size := by
      exact_mod_cast unitsOfRank_natCast size ▸ unitsOfRank_strictMono hlow
    rw [abs_sub_le_abs_sub_iff_right hlt]
    cases size with
    | zero =>
      rw [units_zero] at hlt ⊢
      exact ⟨by push_cast at hlt ⊢; linarith, fun _ _ => rfl⟩
    | succ lower =>
      have hle : (unitsOfRank rank : ℚ) ≤ units lower := by
        exact_mod_cast unitsOfRank_natCast lower ▸ unitsOfRank_strictMono.monotone
          (by omega : rank ≤ lower)
      have hbelow := h.below lower rfl
      refine ⟨by linarith, fun _ htie => ?_⟩
      have hmiddle := (abs_sub_le_abs_sub_iff hlt).1 htie.le
      exact h.belowTie lower rfl (by linarith)
  · rw [unitsOfRank_natCast]
    exact ⟨le_rfl, fun hne => absurd rfl hne⟩
  · have hlt : (units size : ℚ) < unitsOfRank rank := by
      exact_mod_cast unitsOfRank_natCast size ▸ unitsOfRank_strictMono hhigh
    have hle : (units (size + 1) : ℚ) ≤ unitsOfRank rank := by
      exact_mod_cast unitsOfRank_natCast (size + 1) ▸
        unitsOfRank_strictMono.monotone (by omega : ((size + 1 : Nat) : Int) ≤ rank)
    have habove := h.above
    refine ⟨(abs_sub_le_abs_sub_iff hlt).2 (by linarith), fun _ htie => ?_⟩
    have hmiddle := (abs_sub_le_abs_sub_iff_right hlt).1 htie.le
    exact h.aboveTie (by linarith)

theorem abs_signed_sub (negative : Bool) (p q : ℚ) :
    |signed negative p - q| = |p - signed negative q| := by
  cases negative with
  | false => rfl
  | true =>
    rw [signed, signed, if_pos rfl, if_pos rfl, ← abs_neg]
    congr 1
    ring

theorem signed_unitsOfRank (negative : Bool) (rank : Int) :
    signed negative (unitsOfRank rank) = (unitsOfRank (if negative then -rank else rank) : ℚ) := by
  cases negative with
  | false => rfl
  | true =>
    rw [signed, if_pos rfl, if_pos rfl, unitsOfRank_neg]
    push_cast
    rfl

/-- The distance from a number of the order, counted on the side on which `r` lies. -/
theorem abs_signed_sub_value (negative : Bool) (r : ℚ) (e : Double) :
    |signed negative (r * leastValue) - e.value| =
      |r - unitsOfRank (if negative then -e.rank else e.rank)| * leastValue := by
  have hscale : signed negative (r * leastValue) = signed negative r * leastValue := by
    cases negative with
    | false => rfl
    | true => exact (neg_mul _ _).symm
  rw [value_eq, hscale, ← sub_mul, abs_mul, abs_of_pos leastValue_pos, abs_signed_sub,
    signed_unitsOfRank]

/-- The size that is midmost makes the number that is nearest. -/
theorem IsMidmost.isNearest {size : Nat} {r : ℚ} (h : IsMidmost size r) (hr : 0 ≤ r)
    (hfinite : size < infiniteSize) (negative : Bool) :
    (Double.mk negative size).IsNearest (signed negative (r * leastValue)) := by
  have hrank : (if negative then -(Double.mk negative size).rank
      else (Double.mk negative size).rank) = size := by
    cases negative with
    | false => rfl
    | true => exact neg_neg _
  have hself : |signed negative (r * leastValue) - (Double.mk negative size).value| =
      |r - units size| * leastValue := by
    rw [abs_signed_sub_value, hrank, unitsOfRank_natCast, Int.cast_natCast]
  refine ⟨decide_eq_true hfinite, fun e _ => ?_, fun e _ hne htie => ?_⟩
  · rw [hself, abs_signed_sub_value]
    exact mul_le_mul_of_nonneg_right (h.closest hr _).1 leastValue_pos.le
  · rw [hself, abs_signed_sub_value] at htie
    refine (h.closest hr (if negative then -e.rank else e.rank)).2 (fun heq => hne ?_)
      (mul_right_cancel₀ leastValue_pos.ne' htie)
    -- The ranks agree, and so do the values.
    rw [value_eq, value_eq]
    congr 3
    rw [← hrank] at heq
    cases negative with
    | false => exact heq
    | true => exact neg_injective heq

/-- The whole number is nearest to `t`, and even if `t` is in the middle between two. -/
structure RoundsTo (t : ℚ) (n : Nat) : Prop where
  above : 2 * t ≤ 2 * n + 1
  below : 2 * n ≤ 2 * t + 1
  even : 2 * t = 2 * n + 1 ∨ 2 * n = 2 * t + 1 → n % 2 = 0

/-- Below a whole number that is no more than what is rounded the result cannot fall. -/
theorem RoundsTo.le {t : ℚ} {n low : Nat} (h : RoundsTo t n) (hlow : (low : ℚ) ≤ t) : low ≤ n := by
  have habove := h.above
  have hlt : (low : ℚ) < n + 1 := by linarith
  exact Nat.lt_succ_iff.1 (by exact_mod_cast hlt)

theorem RoundsTo.ge {t : ℚ} {n high : Nat} (h : RoundsTo t n) (hhigh : t ≤ high) : n ≤ high := by
  have hbelow := h.below
  have hlt : (n : ℚ) < high + 1 := by linarith
  exact Nat.lt_succ_iff.1 (by exact_mod_cast hlt)

/-- From a size with so many steps on the next one is at least as many away. -/
theorem gap_le {size : Nat} (steps : Nat) (h : steps = 0 ∨ (steps + 1) * hiddenBit ≤ size) :
    (units size + 2 ^ steps : ℚ) ≤ units (size + 1) := by
  have hsteps : steps ≤ size / hiddenBit - 1 := by
    obtain rfl | h := h
    · exact Nat.zero_le _
    · exact Nat.le_sub_one_of_lt ((Nat.le_div_iff_mul_le hiddenBit_pos).2 h)
  rw [units_succ]
  push_cast
  exact add_le_add_right (pow_le_pow_right₀ one_le_two hsteps) _

theorem hiddenBit_eq : (hiddenBit : ℚ) = 2 ^ (52 : Int) := by
  norm_num [hiddenBit]

theorem hiddenBit_even : hiddenBit % 2 = 0 := rfl

/-- A rounded significand makes a size that is midmost, if it has all its bits or stands at the end
of the order. -/
theorem RoundsTo.isMidmost {t : ℚ} {steps significand : Nat} (h : RoundsTo t significand)
    (hnormal : steps = 0 ∨ (hiddenBit : ℚ) ≤ t) (hlt : t < 2 * hiddenBit) :
    IsMidmost (steps * hiddenBit + significand) (t * 2 ^ steps) := by
  have hscale : (0 : ℚ) < 2 ^ steps := pow_pos two_pos _
  have hle : significand ≤ 2 * hiddenBit := h.ge (by exact_mod_cast hlt.le)
  have hnormal' : steps = 0 ∨ hiddenBit ≤ significand := hnormal.imp_right h.le
  have hunits : (units (steps * hiddenBit + significand) : ℚ) = significand * 2 ^ steps := by
    exact_mod_cast units_add hnormal' hle
  have heven (hsignificand : significand % 2 = 0) : (steps * hiddenBit + significand) % 2 = 0 := by
    rw [Nat.add_mod, Nat.mul_mod, hiddenBit_even, hsignificand, Nat.mul_zero]
  have habove := mul_le_mul_of_nonneg_right h.above hscale.le
  have hbelow := mul_le_mul_of_nonneg_right h.below hscale.le
  have hplace : steps = 0 ∨ (steps + 1) * hiddenBit ≤ steps * hiddenBit + significand :=
    hnormal'.imp_right fun hle => by rw [Nat.succ_mul]; omega
  have hgapAbove := gap_le steps hplace
  -- One step below the least significand with all its bits the steps are half as wide; but `t` is
  -- not below it.
  have hgapBelow (lower : Nat) (hlower : lower + 1 = steps * hiddenBit + significand) :
      (units lower + 2 ^ steps : ℚ) ≤ units (steps * hiddenBit + significand) ∨
        (units lower : ℚ) < units (steps * hiddenBit + significand) ∧
          (units (steps * hiddenBit + significand) : ℚ) ≤ t * 2 ^ steps := by
    by_cases hleast : steps ≠ 0 ∧ significand = hiddenBit
    · obtain ⟨hsteps, rfl⟩ := hleast
      refine .inr ⟨by exact_mod_cast units_strictMono (by omega), ?_⟩
      rw [hunits]
      exact mul_le_mul_of_nonneg_right (hnormal.resolve_left hsteps) hscale.le
    · rw [← hlower]
      exact .inl (gap_le steps (by rw [Nat.succ_mul]; omega))
  refine ⟨by linarith, fun htie => heven (h.even (.inl ?_)), fun lower hlower => ?_,
    fun lower hlower htie => ?_⟩
  · exact mul_right_cancel₀ hscale.ne' (by linarith)
  · obtain hgap | ⟨hlower, hleast⟩ := hgapBelow lower hlower <;> linarith
  · obtain hgap | ⟨hlower, hleast⟩ := hgapBelow lower hlower
    · exact heven (h.even (.inr (mul_right_cancel₀ hscale.ne' (by linarith))))
    · exact absurd htie (ne_of_lt (by linarith))

section Quotient

variable {num den : Nat}

/-- The rounded quotient is off by half at most, and by a half only if it is even. -/
theorem roundRatio_spec (num : Nat) (hden : 0 < den) :
    2 * num ≤ (2 * roundRatio num den + 1) * den ∧ 2 * roundRatio num den * den ≤ 2 * num + den ∧
      (2 * num = (2 * roundRatio num den + 1) * den ∨ 2 * roundRatio num den * den = 2 * num + den →
        roundRatio num den % 2 = 0) := by
  have hsplit := Nat.div_add_mod num den
  have hrest := Nat.mod_lt num hden
  unfold roundRatio
  generalize num / den = low at hsplit ⊢
  generalize num % den = rest at hsplit hrest ⊢
  subst hsplit
  have hlow : (2 * low + 1) * den = 2 * (den * low) + den ∧ 2 * low * den = 2 * (den * low) := by
    constructor <;> ring
  have hhigh : (2 * (low + 1) + 1) * den = 2 * (den * low) + 3 * den ∧
      2 * (low + 1) * den = 2 * (den * low) + 2 * den := by
    constructor <;> ring
  simp only
  split
  · rw [hlow.1, hlow.2]
    omega
  · split
    · rw [hhigh.1, hhigh.2]
      omega
    · obtain heven | hodd := Nat.mod_two_eq_zero_or_one low
      · rw [show low + low % 2 = low by omega, hlow.1, hlow.2]
        omega
      · rw [show low + low % 2 = low + 1 by omega, hhigh.1, hhigh.2]
        omega

/-- The logarithm of a whole number to its sides. -/
theorem log2_bounds {n : Nat} (hn : 0 < n) :
    (2 : ℚ) ^ (n.log2 : Int) ≤ n ∧ (n : ℚ) < 2 ^ ((n.log2 : Int) + 1) := by
  constructor
  · rw [zpow_natCast]
    exact_mod_cast Nat.log2_self_le hn.ne'
  · rw [← Nat.cast_succ, zpow_natCast]
    exact_mod_cast Nat.lt_log2_self

/-- A power with an exponent of either sign, as a quotient of powers. -/
theorem pow_toNat_div {b : ℚ} (hb : b ≠ 0) (e : Int) : b ^ e.toNat / b ^ (-e).toNat = b ^ e := by
  rw [← zpow_natCast, ← zpow_natCast, ← zpow_sub₀ hb]
  congr 1
  omega

/-- A quotient that is scaled in whole numbers. -/
theorem scaled_quotient (num den : Nat) (e : Int) :
    ((num <<< (-e).toNat : Nat) : ℚ) / ((den <<< e.toNat : Nat) : ℚ) = num / den / 2 ^ e := by
  have hpower := pow_toNat_div (b := 2) two_ne_zero (-e)
  rw [neg_neg] at hpower
  rw [Nat.shiftLeft_eq, Nat.shiftLeft_eq]
  push_cast
  rw [mul_div_mul_comm, hpower, zpow_neg, div_eq_mul_inv (num / den : ℚ)]

theorem binaryExponent_spec (hnum : 0 < num) (hden : 0 < den) :
    (2 : ℚ) ^ binaryExponent num den ≤ num / den ∧
      (num / den : ℚ) < 2 ^ (binaryExponent num den + 1) := by
  have hnumBounds := log2_bounds hnum
  have hdenBounds := log2_bounds hden
  have hdenPos : (0 : ℚ) < den := by exact_mod_cast hden
  have htest (e : Int) : den <<< e.toNat ≤ num <<< (-e).toNat ↔ (2 : ℚ) ^ e ≤ num / den := by
    have hscaled : (0 : ℚ) < (den <<< e.toNat : Nat) := by
      rw [Nat.shiftLeft_eq]
      push_cast
      positivity
    have hcast : den <<< e.toNat ≤ num <<< (-e).toNat ↔
        ((den <<< e.toNat : Nat) : ℚ) ≤ (num <<< (-e).toNat : Nat) := Nat.cast_le.symm
    rw [hcast, ← one_le_div hscaled, scaled_quotient, one_le_div (zpow_pos two_pos e)]
  unfold binaryExponent
  simp only [htest]
  generalize (num.log2 : Int) = a at hnumBounds ⊢
  generalize (den.log2 : Int) = b at hdenBounds ⊢
  have hupper : (num / den : ℚ) < 2 ^ (a - b + 1) := by
    rw [div_lt_iff₀ hdenPos]
    calc (num : ℚ) < 2 ^ (a + 1) := hnumBounds.2
      _ = 2 ^ (a - b + 1) * 2 ^ b := by
        rw [← zpow_add₀ two_ne_zero]
        congr 1
        ring
      _ ≤ 2 ^ (a - b + 1) * den := mul_le_mul_of_nonneg_left hdenBounds.1 (zpow_pos two_pos _).le
  have hlower : (2 : ℚ) ^ (a - b - 1) ≤ num / den := by
    rw [le_div_iff₀ hdenPos]
    calc (2 : ℚ) ^ (a - b - 1) * den ≤ 2 ^ (a - b - 1) * 2 ^ (b + 1) :=
          mul_le_mul_of_nonneg_left hdenBounds.2.le (zpow_pos two_pos _).le
      _ = 2 ^ a := by
        rw [← zpow_add₀ two_ne_zero]
        congr 1
        ring
      _ ≤ num := hnumBounds.1
  split
  · next h => exact ⟨h, hupper⟩
  · next h => exact ⟨hlower, by rw [Int.sub_add_cancel]; exact not_le.1 h⟩

theorem roundsTo_roundRatio (num : Nat) (hden : 0 < den) :
    RoundsTo (num / den) (roundRatio num den) := by
  obtain ⟨habove, hbelow, heven⟩ := roundRatio_spec num hden
  have hpos : (0 : ℚ) < den := by exact_mod_cast hden
  have hnum : (num : ℚ) = num / den * den := (div_mul_cancel₀ _ hpos.ne').symm
  have habove' : (2 * num : ℚ) ≤ (2 * roundRatio num den + 1) * den := by exact_mod_cast habove
  have hbelow' : (2 * roundRatio num den * den : ℚ) ≤ 2 * num + den := by exact_mod_cast hbelow
  generalize (num / den : ℚ) = t at hnum ⊢
  refine ⟨?_, ?_, fun htie => heven ?_⟩
  · exact le_of_mul_le_mul_right (by linarith) hpos
  · exact le_of_mul_le_mul_right (by linarith) hpos
  · have hmul : (2 * num : ℚ) = (2 * roundRatio num den + 1) * den ∨
        (2 * roundRatio num den * den : ℚ) = 2 * num + den := by
      rw [hnum]
      obtain htie | htie := htie
      · exact .inl (by rw [← htie]; ring)
      · exact .inr (by rw [htie]; ring)
    exact_mod_cast hmul

/-- A positive quotient has the size that is midmost to it, unless it is infinite. -/
theorem isMidmost_sizeOfRatio (hnum : 0 < num) (hden : 0 < den)
    (hfinite : sizeOfRatio num den < infiniteSize) :
    IsMidmost (sizeOfRatio num den) (num / den / leastValue) := by
  obtain ⟨hlower, hupper⟩ := binaryExponent_spec hnum hden
  unfold sizeOfRatio at hfinite ⊢
  rw [if_neg hnum.ne'] at hfinite ⊢
  simp only at hfinite ⊢
  generalize hstep : max (binaryExponent num den - 52) (-1074) = step at hfinite ⊢
  have hscaled : 0 < den <<< step.toNat := by
    rw [Nat.shiftLeft_eq]
    positivity
  have hrounds := roundsTo_roundRatio (num <<< (-step).toNat) hscaled
  rw [scaled_quotient] at hrounds
  have hpower : (0 : ℚ) < 2 ^ step := zpow_pos two_pos step
  have hnormal : (step + 1074).toNat = 0 ∨ (hiddenBit : ℚ) ≤ num / den / 2 ^ step := by
    refine or_iff_not_imp_left.2 fun hsteps => ?_
    rw [le_div_iff₀ hpower, hiddenBit_eq, ← zpow_add₀ two_ne_zero]
    exact le_trans (zpow_le_zpow_right₀ one_le_two (by omega)) hlower
  have hlt : (num / den / 2 ^ step : ℚ) < 2 * hiddenBit := by
    rw [div_lt_iff₀ hpower, hiddenBit_eq, ← zpow_one_add₀ two_ne_zero, ← zpow_add₀ two_ne_zero]
    exact lt_of_lt_of_le hupper (zpow_le_zpow_right₀ one_le_two (by omega))
  have hunits : (num / den / leastValue : ℚ) = num / den / 2 ^ step * 2 ^ (step + 1074).toNat := by
    rw [← zpow_natCast, Int.toNat_of_nonneg (by omega), leastValue, zpow_add₀ two_ne_zero, zpow_neg]
    field_simp
  rw [Nat.min_eq_right (by omega), hunits]
  exact hrounds.isMidmost hnormal hlt

end Quotient

/-- So small a number is less than half of the least positive value. -/
theorem two_mul_div_leastValue_lt {q : ℚ} (h : q ≤ 10 ^ (-399 : Int)) :
    2 * (q / leastValue) < 1 := by
  have hpowers : 2 * (2 : ℚ) ^ 1074 < 10 ^ 399 :=
    calc 2 * (2 : ℚ) ^ 1074 = 2 ^ 1075 := (pow_succ' 2 1074).symm
      _ < 2 ^ (3 * 399) := pow_lt_pow_right₀ one_lt_two (by decide)
      _ = (2 ^ 3) ^ 399 := pow_mul 2 3 399
      _ ≤ 10 ^ 399 := pow_le_pow_left₀ (by norm_num) (by norm_num) 399
  have hq : q * 10 ^ 399 ≤ 1 := by
    rwa [zpow_neg, zpow_ofNat, ← one_div, le_div_iff₀ (by positivity)] at h
  have hleast : leastValue = 1 / 2 ^ 1074 := by
    rw [leastValue, zpow_neg, zpow_ofNat, one_div]
  have hpos : (0 : ℚ) < 2 ^ 1074 := pow_pos two_pos _
  rw [← mul_div_assoc, div_lt_one leastValue_pos, hleast, lt_div_iff₀ hpos]
  generalize (2 : ℚ) ^ 1074 = least at hpowers hpos ⊢
  generalize (10 : ℚ) ^ 399 = ten at hpowers hq
  obtain hneg | hqpos := le_or_gt q 0
  · exact lt_of_le_of_lt (mul_nonpos_of_nonpos_of_nonneg (by linarith) hpos.le) one_pos
  · calc 2 * q * least = q * (2 * least) := by ring
      _ < q * ten := mul_lt_mul_of_pos_left hpowers hqpos
      _ ≤ 1 := hq

/-- So few digits with so low an exponent write less than half of the least positive value. -/
theorem two_mul_decimal_lt {significand : Nat} {width exponent : Int}
    (hwidth : (significand : ℚ) ≤ 10 ^ width) (h : width + exponent ≤ -399) :
    2 * (significand * 10 ^ exponent / leastValue) < 1 := by
  apply two_mul_div_leastValue_lt
  calc (significand * 10 ^ exponent : ℚ)
      ≤ 10 ^ width * 10 ^ exponent :=
        mul_le_mul_of_nonneg_right hwidth (zpow_nonneg (by norm_num) _)
    _ = 10 ^ (width + exponent) := (zpow_add₀ (by norm_num) _ _).symm
    _ ≤ 10 ^ (-399 : Int) := zpow_le_zpow_right₀ (by norm_num) h

theorem decimal_quotient (significand : Nat) (exponent : Int) :
    ((significand * Nat.pow 10 exponent.toNat : Nat) : ℚ) / (Nat.pow 10 (-exponent).toNat : Nat) =
      significand * 10 ^ exponent := by
  have hten : (10 : ℚ) ≠ 0 := by norm_num
  rw [Nat.pow_eq, Nat.pow_eq]
  push_cast
  rw [mul_div_assoc, pow_toNat_div hten]

/-- A decimal has the size that is midmost to it, unless it is infinite. -/
theorem isMidmost_sizeOfDecimal {significand : Nat} {exponent : Int}
    (hfinite : sizeOfDecimal significand exponent < infiniteSize) :
    IsMidmost (sizeOfDecimal significand exponent) (significand * 10 ^ exponent / leastValue) := by
  unfold sizeOfDecimal at hfinite ⊢
  split at hfinite
  · next hzero =>
    rw [if_pos hzero, hzero]
    exact isMidmost_zero (by simp)
  next hnonzero =>
  rw [if_neg hnonzero]
  split at hfinite
  · exact absurd hfinite (Nat.lt_irrefl _)
  next hhigh =>
  rw [if_neg hhigh]
  have hpos : 0 < significand := Nat.pos_of_ne_zero hnonzero
  split at hfinite
  · next hlow =>
    rw [if_pos hlow]
    have hceiling : decimalCeiling = 400 := rfl
    have hpower : (significand : ℚ) ≤ 10 ^ ((significand.log2 : Int) + 1) :=
      (log2_bounds hpos).2.le.trans (zpow_le_zpow_left₀ (by omega) two_pos.le (by norm_num))
    exact isMidmost_zero (two_mul_decimal_lt hpower (by omega))
  · next hlow =>
    rw [if_neg hlow, ← decimal_quotient]
    exact isMidmost_sizeOfRatio (Nat.mul_pos hpos (Nat.pow_pos (by decide)))
      (Nat.pow_pos (by decide)) hfinite

end ItemTable.Number
