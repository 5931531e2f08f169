import ItemTable.Proofs.Number.ExactValue
import Mathlib.Data.Int.ConditionallyCompleteOrder
import Mathlib.Order.Monotone.Basic
import Mathlib.Tactic.Linarith

/-!
# What a binary64 number is worth

The finite numbers are counted off by their ranks, and their values ascend with them
(`value_lt_value_iff`). A number that lies between two of them is nearest to one, or it lies in the
middle; then the one with the even size counts as nearest. `Double.IsNearest` says so without any
rounding. It leaves one value for a number and keeps the order: `IsNearest.value_le_value`.
-/
namespace ItemTable.Number

theorem hiddenBit_pos : 0 < hiddenBit := by decide

/-- The value of a size, in multiples of the least positive one. -/
def units (size : Nat) : Nat :=
  if size < hiddenBit then size else (hiddenBit + size % hiddenBit) * 2 ^ (size / hiddenBit - 1)

/-- A size is a significand, and how many steps it is moved to the left. -/
theorem units_add {steps significand : Nat} (hnormal : steps = 0 ∨ hiddenBit ≤ significand)
    (hle : significand ≤ 2 * hiddenBit) :
    units (steps * hiddenBit + significand) = significand * 2 ^ steps := by
  have hpos := hiddenBit_pos
  have hsplit {rest : Nat} (hrest : rest < hiddenBit) (k : Nat) :
      (k * hiddenBit + rest) / hiddenBit = k ∧ (k * hiddenBit + rest) % hiddenBit = rest := by
    rw [Nat.mul_comm, Nat.mul_add_div hpos, Nat.div_eq_of_lt hrest, Nat.mul_add_mod,
      Nat.mod_eq_of_lt hrest]
    exact ⟨rfl, rfl⟩
  obtain hlow | hnormal := Nat.lt_or_ge significand hiddenBit
  · obtain rfl : steps = 0 := hnormal.resolve_right (by omega)
    rw [units, if_pos (by omega)]
    omega
  obtain hlt | rfl := Nat.lt_or_eq_of_le hle
  · have hplace :
        steps * hiddenBit + significand = (steps + 1) * hiddenBit + (significand - hiddenBit) := by
      rw [Nat.succ_mul]
      omega
    have hrest : significand - hiddenBit < hiddenBit := by omega
    obtain ⟨hdiv, hmod⟩ := hsplit hrest (steps + 1)
    rw [hplace, units, if_neg (by rw [Nat.succ_mul]; omega), hdiv, hmod, Nat.add_sub_cancel,
      Nat.add_sub_cancel' hnormal]
  · have hplace : steps * hiddenBit + 2 * hiddenBit = (steps + 2) * hiddenBit + 0 := by ring
    obtain ⟨hdiv, hmod⟩ := hsplit hpos (steps + 2)
    rw [hplace, units, if_neg (by rw [Nat.add_mul]; omega), hdiv, hmod, Nat.add_zero,
      show steps + 2 - 1 = steps + 1 from rfl, Nat.pow_succ]
    ring

/-- Every size is a significand that is moved to the left. -/
theorem exists_steps (size : Nat) : ∃ steps significand,
    size = steps * hiddenBit + significand ∧ (steps = 0 ∨ hiddenBit ≤ significand) ∧
      significand < 2 * hiddenBit ∧ size / hiddenBit - 1 = steps := by
  have hpos := hiddenBit_pos
  obtain hlow | hnormal := Nat.lt_or_ge size hiddenBit
  · exact ⟨0, size, by omega, .inl rfl, by omega, by rw [Nat.div_eq_of_lt hlow]⟩
  · have hmod := Nat.mod_lt size hpos
    have hdiv : 1 ≤ size / hiddenBit := (Nat.one_le_div_iff hpos).2 hnormal
    refine ⟨size / hiddenBit - 1, hiddenBit + size % hiddenBit, ?_, .inr (by omega), by omega, rfl⟩
    have hsize := Nat.div_add_mod size hiddenBit
    rw [Nat.sub_mul, Nat.mul_comm]
    have hle : hiddenBit ≤ hiddenBit * (size / hiddenBit) := Nat.le_mul_of_pos_right _ hdiv
    omega

/-- From one size to the next it is one step. -/
theorem units_succ (size : Nat) : units (size + 1) = units size + 2 ^ (size / hiddenBit - 1) := by
  obtain ⟨steps, significand, rfl, hnormal, hlt, hsteps⟩ := exists_steps size
  rw [Nat.add_assoc, units_add (hnormal.imp_right fun h => by omega) (by omega),
    units_add hnormal (by omega), hsteps]
  ring

theorem units_strictMono : StrictMono units :=
  strictMono_nat_of_lt_succ fun size => by
    rw [units_succ]
    exact Nat.lt_add_of_pos_right (Nat.two_pow_pos _)

theorem units_zero : units 0 = 0 := rfl

namespace Double

/-- The least positive value. -/
def leastValue : ℚ := 2 ^ (-1074 : Int)

theorem leastValue_pos : 0 < leastValue := zpow_pos two_pos _

/-- The value of a finite number. -/
def value (d : Double) : ℚ := signed d.negative (d.significand * 2 ^ d.step)

/-- A place in the order of the finite numbers, in multiples of the least positive one. -/
def unitsOfRank (rank : Int) : Int := if rank < 0 then -units rank.natAbs else units rank.natAbs

theorem unitsOfRank_natCast (size : Nat) : unitsOfRank size = units size := by
  rw [unitsOfRank, if_neg (by omega), Int.natAbs_natCast]

theorem unitsOfRank_neg (rank : Int) : unitsOfRank (-rank) = -unitsOfRank rank := by
  unfold unitsOfRank
  rw [Int.natAbs_neg]
  obtain hneg | rfl | hpos := lt_trichotomy rank 0
  · rw [if_neg (by omega), if_pos hneg, neg_neg]
  · rfl
  · rw [if_pos (by omega), if_neg (by omega)]

theorem unitsOfRank_strictMono : StrictMono unitsOfRank :=
  strictMono_int_of_lt_succ fun rank => by
    unfold unitsOfRank
    obtain hneg | hpos := lt_or_ge rank 0
    · have hlt : units (rank + 1).natAbs < units rank.natAbs := units_strictMono (by omega)
      rw [if_pos hneg]
      split <;> omega
    · have hlt : units rank.natAbs < units (rank + 1).natAbs := units_strictMono (by omega)
      rw [if_neg (by omega), if_neg (by omega)]
      omega

theorem significand_mul_step (d : Double) :
    (d.significand * 2 ^ d.step : ℚ) = units d.size * leastValue := by
  unfold significand step units
  by_cases hlow : d.size < hiddenBit
  · rw [if_pos hlow, if_pos hlow, if_pos hlow, leastValue]
  · have hdiv : 1 ≤ d.size / hiddenBit := (Nat.one_le_div_iff hiddenBit_pos).2 (Nat.not_lt.1 hlow)
    have hstep :
        ((d.size / hiddenBit : Nat) : Int) - 1075 = (d.size / hiddenBit - 1 : Nat) + (-1074) := by
      omega
    rw [if_neg hlow, if_neg hlow, if_neg hlow, hstep, zpow_add₀ two_ne_zero, zpow_natCast,
      ← leastValue]
    push_cast
    ring

/-- The value of a number is that of its rank. -/
theorem value_eq (d : Double) : d.value = unitsOfRank d.rank * leastValue := by
  rw [value, significand_mul_step]
  obtain ⟨negative, size⟩ := d
  unfold rank unitsOfRank signed
  cases negative with
  | false => simp
  | true =>
    obtain rfl | hpos := Nat.eq_zero_or_pos size
    · simp [units_zero]
    · simp [hpos]

/-- The finite numbers ascend with their ranks. -/
theorem value_lt_value_iff {a b : Double} : a.value < b.value ↔ a.rank < b.rank := by
  rw [value_eq, value_eq, mul_lt_mul_iff_left₀ leastValue_pos, Int.cast_lt,
    unitsOfRank_strictMono.lt_iff_lt]

theorem value_le_value_iff {a b : Double} : a.value ≤ b.value ↔ a.rank ≤ b.rank := by
  rw [← not_lt, value_lt_value_iff, Int.not_lt]

end Double

/-- The nearer of two numbers lies on the same side of the middle. -/
theorem abs_sub_le_abs_sub_iff {a b x : ℚ} (h : a < b) : |x - a| ≤ |x - b| ↔ 2 * x ≤ a + b := by
  rw [← sq_le_sq]
  constructor
  · intro hle
    nlinarith
  · intro hle
    nlinarith

theorem abs_sub_le_abs_sub_iff_right {a b x : ℚ} (h : a < b) :
    |x - b| ≤ |x - a| ↔ a + b ≤ 2 * x := by
  rw [← sq_le_sq]
  constructor
  · intro hle
    nlinarith
  · intro hle
    nlinarith

namespace Double

/-- The finite number is nearest to `q`: no other one is nearer, and where another one is as near
its size is even. -/
structure IsNearest (d : Double) (q : ℚ) : Prop where
  finite : d.isFinite = true
  closest : ∀ e : Double, e.isFinite = true → |q - d.value| ≤ |q - e.value|
  even : ∀ e : Double, e.isFinite = true → e.value ≠ d.value → |q - e.value| = |q - d.value| →
    d.size % 2 = 0

/-- The number at a place in the order. -/
def ofRank (rank : Int) : Double := ⟨decide (rank < 0), rank.natAbs⟩

theorem rank_ofRank (r : Int) : (ofRank r).rank = r := by
  show (if decide (r < 0) then -(r.natAbs : Int) else r.natAbs) = r
  by_cases h : r < 0
  · rw [if_pos (decide_eq_true h)]
    omega
  · rw [if_neg (by simpa using h)]
    omega

theorem natAbs_rank (d : Double) : d.rank.natAbs = d.size := by
  unfold rank
  split <;> omega

/-- What is nearest to the smaller number is not greater. -/
theorem IsNearest.value_le_value {a b : Double} {p q : ℚ} (ha : a.IsNearest p) (hb : b.IsNearest q)
    (h : p ≤ q) : a.value ≤ b.value := by
  by_contra hlt
  rw [not_le] at hlt
  have hp := (abs_sub_le_abs_sub_iff_right hlt).1 (ha.closest b hb.finite)
  have hq := (abs_sub_le_abs_sub_iff hlt).1 (hb.closest a ha.finite)
  -- Both lie in the middle between the two, so that both sizes are even and there is a number in
  -- between.
  obtain rfl : p = q := by linarith
  have htie : |p - b.value| = |p - a.value| :=
    le_antisymm ((abs_sub_le_abs_sub_iff hlt).2 hq) (ha.closest b hb.finite)
  have haeven := ha.even b hb.finite hlt.ne htie
  have hbeven := hb.even a ha.finite hlt.ne' htie.symm
  have hrank := value_lt_value_iff.1 hlt
  have hsizea := natAbs_rank a
  have hsizeb := natAbs_rank b
  have hfinitea : a.size < infiniteSize := of_decide_eq_true ha.finite
  have hfiniteb : b.size < infiniteSize := of_decide_eq_true hb.finite
  have hbetween := rank_ofRank (b.rank + 1)
  have hfinite : (ofRank (b.rank + 1)).isFinite = true := decide_eq_true (by
    show (b.rank + 1).natAbs < infiniteSize
    omega)
  have hlow : b.value < (ofRank (b.rank + 1)).value := value_lt_value_iff.2 (by omega)
  have hhigh : (ofRank (b.rank + 1)).value < a.value := value_lt_value_iff.2 (by omega)
  have hcloser := (abs_sub_le_abs_sub_iff_right hhigh).1 (ha.closest _ hfinite)
  linarith

/-- A number has one nearest value. -/
theorem IsNearest.value_eq_value {a b : Double} {q : ℚ} (ha : a.IsNearest q) (hb : b.IsNearest q) :
    a.value = b.value :=
  le_antisymm (ha.value_le_value hb le_rfl) (hb.value_le_value ha le_rfl)

end Double

end ItemTable.Number
