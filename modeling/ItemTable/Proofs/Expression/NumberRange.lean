import ItemTable.Proofs.Expression.CheckedValues
import ItemTable.Proofs.Number.NearestDouble

/-!
# Ranges of numbers

The bounds of a range of numbers are compared after they have been rounded. A range whose lower
bound is not greater is never refused. One whose bounds are the wrong way round is refused only if
rounding tells them apart: where both have the same nearest number it is accepted as if they were
equal (`between_orders_rounded`).
-/
namespace ItemTable.Number

/-- The finite number has the place of another one and is nearest to the same. -/
theorem Double.IsNearest.of_rank_eq {a b : Double} {q : ℚ} (h : b.IsNearest q)
    (hrank : a.rank = b.rank) :
    a.IsNearest q := by
  have hvalue : a.value = b.value := by rw [value_eq, value_eq, hrank]
  have hsize : a.size = b.size := by rw [← natAbs_rank, ← natAbs_rank, hrank]
  refine ⟨?_, fun e he => ?_, fun e he hne htie => ?_⟩
  · rw [isFinite, hsize]
    exact h.finite
  · rw [hvalue]
    exact h.closest e he
  · rw [hvalue] at hne htie
    rw [hsize]
    exact h.even e he hne htie

/-- The numbers are in order, or rounding makes them the same. -/
def RoundInOrder (p q : ℚ) : Prop := p ≤ q ∨ ∃ d : Double, d.IsNearest p ∧ d.IsNearest q

theorem rank_le_rank_iff {a b : Double} {p q : ℚ} (ha : a.IsNearest p) (hb : b.IsNearest q) :
    a.rank ≤ b.rank ↔ RoundInOrder p q := by
  rw [← Double.value_le_value_iff]
  constructor
  · intro hle
    refine or_iff_not_imp_left.2 fun hdescending => ⟨a, ha, hb.of_rank_eq ?_⟩
    have hge := hb.value_le_value ha (not_le.1 hdescending).le
    exact le_antisymm (Double.value_le_value_iff.1 hle) (Double.value_le_value_iff.1 hge)
  · rintro (hle | ⟨d, hp, hq⟩)
    · exact ha.value_le_value hb hle
    · exact le_of_eq ((ha.value_eq_value hp).trans (hq.value_eq_value hb))

end ItemTable.Number

namespace ItemTable.Expression

open Number Numeral

/-- An ordinary number text that the checks accept. -/
structure IsAcceptedNumber (text : String) : Prop where
  finite : (AttributeValue.number text).finiteNumber?.isSome = true
  ordinary : ∀ x, ofText? text = some x → x.IsOrdinary

/-- The check gives the number that is nearest to what the text writes. -/
theorem IsAcceptedNumber.exists_nearest {text : String} (h : IsAcceptedNumber text)
    (field : String) :
    ∃ q d, exactValue? text = some q ∧ checkNumber field (.number text) = .ok d ∧
      d.IsNearest q := by
  obtain ⟨d, hd⟩ := Option.isSome_iff_exists.1 h.finite
  obtain ⟨_, x, heq, hx, rfl, hfinite⟩ := AttributeValue.finiteNumber?_eq_some_iff.1 hd
  cases heq
  have hordinary := h.ordinary x hx
  obtain ⟨negative, whole, fraction, exponent, rfl⟩ := exists_finite hfinite
  refine ⟨_, _, ?_, by rw [checkNumber, hd],
    isNearest_toDouble (ofText?_eq_finite_iff.1 hx) hordinary rfl hfinite⟩
  rw [exactValue?, hx]
  rfl

/-- Two numbers are compared by their places. -/
theorem checkRange_number {field low high : String} {a b : Double}
    (hlow : checkNumber field (.number low) = .ok a)
    (hhigh : checkNumber field (.number high) = .ok b) :
    checkRange field (.number low) (.number high) =
      if a.rank ≤ b.rank then .ok () else .error (.invalidRange field .descending) := by
  have hrange : checkRange field (.number low) (.number high) =
      checkNumber field (.number low) >>= fun a => checkNumber field (.number high) >>= fun b =>
        if decide (a.rank ≤ b.rank) = true then .ok ()
        else .error (.invalidRange field .descending) := rfl
  rw [hrange, hlow, hhigh]
  simp only [decide_eq_true_eq]
  rfl

/-- A condition on a field with a name is accepted or refused as its operand is. -/
theorem Condition.of_between {field : String} (hfield : checkFieldName field = .ok ())
    (low high : AttributeValue) :
    Condition.of field .between (.range low high) =
      (fun _ => ⟨field, .between low high⟩) <$> checkRange field low high := by
  rw [Condition.of, hfield]
  show ((fun _ => Test.between low high) <$> checkRange field low high) >>= _ = _
  cases checkRange field low high <;> rfl

theorem Query.exists_add_between {query : Query} {field : String}
    (hfield : checkFieldName field = .ok ()) (hroom : query.conditions.length < maxConditions)
    (low high : AttributeValue) :
    ∃ query', query.add field .between (.range low high) =
      (fun _ => query') <$> checkRange field low high := by
  refine ⟨{ query with conditions := query.conditions ++ [⟨field, .between low high⟩] }, ?_⟩
  rw [add, Condition.of_between hfield]
  cases checkRange field low high with
  | error e => rfl
  | ok _ => exact if_neg (Nat.not_le.2 hroom)

theorem Scan.exists_add_between {scan : Scan} {field : String}
    (hfield : checkFieldName field = .ok ()) (hroom : scan.fragments.length < maxConditions)
    (low high : AttributeValue) :
    ∃ scan', scan.add field .between (.range low high) =
      (fun _ => scan') <$> checkRange field low high := by
  rw [add, checkRoom_eq_ok.2 hroom, Condition.of_between hfield]
  cases checkRange field low high with
  | error e => exact ⟨scan, rfl⟩
  | ok _ => exact ⟨_, rfl⟩

/-- A call is accepted if the bounds are in order, and refused for their order if they are not. -/
structure IsDecidedBy {α : Type} (call : Except Error α) (field : String)
    (inOrder : Prop) : Prop where
  accepted : (∃ a, call = .ok a) ↔ inOrder
  refused : call = .error (.invalidRange field .descending) ↔ ¬inOrder

theorem isDecidedBy_ite (field : String) (p : Prop) [Decidable p] :
    IsDecidedBy (if p then .ok () else .error (.invalidRange field .descending)) field p := by
  by_cases h : p
  · rw [if_pos h]
    exact ⟨iff_of_true ⟨(), rfl⟩ h, iff_of_false (fun heq => by cases heq) (not_not_intro h)⟩
  · rw [if_neg h]
    exact ⟨iff_of_false (fun ⟨_, heq⟩ => by cases heq) h, iff_of_true rfl h⟩

/-- What is done after the check decides nothing. -/
theorem IsDecidedBy.map {α β : Type} {call : Except Error α} {field : String} {inOrder : Prop}
    (h : IsDecidedBy call field inOrder) (b : β) :
    IsDecidedBy ((fun _ => b) <$> call) field inOrder := by
  obtain ⟨haccepted, hrefused⟩ := h
  cases call with
  | error e => exact ⟨by simpa using haccepted, by simpa using hrefused⟩
  | ok a => exact ⟨by simpa using haccepted, by simpa using hrefused⟩

/-- Two accepted numbers are a range just when they are in order or have the same nearest number.
The check, a query and a scan decide it in the same way. -/
theorem between_orders_rounded {low high : String} (hlow : IsAcceptedNumber low)
    (hhigh : IsAcceptedNumber high) (field : String) :
    ∃ p q, exactValue? low = some p ∧ exactValue? high = some q ∧
      IsDecidedBy (checkRange field (.number low) (.number high)) field (RoundInOrder p q) ∧
      (∀ query : Query, checkFieldName field = .ok () → query.conditions.length < 100 →
        IsDecidedBy (query.add field .between (.range (.number low) (.number high))) field
          (RoundInOrder p q)) ∧
      ∀ scan : Scan, checkFieldName field = .ok () → scan.fragments.length < 100 →
        IsDecidedBy (scan.add field .between (.range (.number low) (.number high))) field
          (RoundInOrder p q) := by
  obtain ⟨p, a, hp, ha, hnearestLow⟩ := hlow.exists_nearest field
  obtain ⟨q, b, hq, hb, hnearestHigh⟩ := hhigh.exists_nearest field
  have hcheck :
      IsDecidedBy (checkRange field (.number low) (.number high)) field (RoundInOrder p q) := by
    rw [checkRange_number ha hb, ← rank_le_rank_iff hnearestLow hnearestHigh]
    exact isDecidedBy_ite field (a.rank ≤ b.rank)
  refine ⟨p, q, hp, hq, hcheck, fun query hfield hroom => ?_, fun scan hfield hroom => ?_⟩
  · obtain ⟨query', hadd⟩ := Query.exists_add_between hfield hroom (.number low) (.number high)
    rw [hadd]
    exact hcheck.map query'
  · obtain ⟨scan', hadd⟩ := Scan.exists_add_between hfield hroom (.number low) (.number high)
    rw [hadd]
    exact hcheck.map scan'

/-- A positive number that is rounded to zero is accepted as the start of a range that ends at
zero. -/
theorem tinyNumber_merged :
    checkRange "price" (.number "1e-400") (.number "0") = .ok () ∧
      ∃ d : Double, d.IsNearest (1 / 10 ^ 400) ∧ d.IsNearest 0 := by
  have htiny : IsAcceptedNumber "1e-400" := by
    refine ⟨by decide +kernel, fun x hx => ?_⟩
    have hread : ofText? "1e-400" =
        some (.finite false ['1'] [] (some (true, ['4', '0', '0']))) := by decide +kernel
    cases hread.symm.trans hx
    exact .inl (by decide +kernel)
  have hzero : IsAcceptedNumber "0" := by
    refine ⟨by decide +kernel, fun x hx => ?_⟩
    have hread : ofText? "0" = some (.finite false ['0'] [] none) := by decide +kernel
    cases hread.symm.trans hx
    exact .inl rfl
  obtain ⟨p, q, hp, hq, hcheck, -⟩ := between_orders_rounded htiny hzero "price"
  have hp' : exactValue? "1e-400" = some (1 / 10 ^ 400) := by decide +kernel
  have hq' : exactValue? "0" = some 0 := by decide +kernel
  cases hp.symm.trans hp'
  cases hq.symm.trans hq'
  have hview : (checkRange "price" (.number "1e-400") (.number "0")).toOption.map id = some () := by
    decide +kernel
  obtain ⟨_, haccepted, -⟩ := toOption_map_eq_some.1 hview
  refine ⟨haccepted, (hcheck.accepted.1 ⟨(), haccepted⟩).resolve_left (not_le.2 ?_)⟩
  positivity

/-- A whole number of sixteen digits is accepted as the start of a range that ends just below it. -/
theorem neighbours_accepted_descending :
    checkRange "n" (.number "9007199254740993") (.number "9007199254740992") = .ok () ∧
      exactValue? "9007199254740993" = some 9007199254740993 ∧
      exactValue? "9007199254740992" = some 9007199254740992 ∧
        ¬(9007199254740993 : ℚ) ≤ 9007199254740992 := by
  have hview :
      (checkRange "n" (.number "9007199254740993") (.number "9007199254740992")).toOption.map id =
        some () := by
    decide +kernel
  obtain ⟨_, haccepted, -⟩ := toOption_map_eq_some.1 hview
  exact ⟨haccepted, by decide +kernel, by decide +kernel, by norm_num⟩

end ItemTable.Expression
