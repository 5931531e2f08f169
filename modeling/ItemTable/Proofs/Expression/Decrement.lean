import ItemTable.Proofs.Expression.CheckedValues
import ItemTable.Proofs.Number.ExactValue

/-!
# Taking a number off a field

A decrement is recorded as the addition of the opposite number. Only the sign of the text is turned:
what stands behind it, digits, point and exponent, is taken over as it is, so that no digit of the
number is lost and the opposite of the opposite is the number again. A decrement is accepted for
every finite number however it is written (`Update.decrement_negates`).
-/
namespace ItemTable.Number

open Numeral

/-- Texts of two numbers that differ in nothing but the sign. -/
inductive AreOpposite : String → String → Prop
  | mk {signText otherSign body whole fraction : List Char} {negative : Bool}
      {exponent : Option (Bool × List Char)} (hsign : WritesSign signText negative)
      (hother : WritesSign otherSign (!negative))
      (hbody : WritesUnsigned body whole fraction exponent) :
      AreOpposite (String.ofList (signText ++ body)) (String.ofList (otherSign ++ body))

theorem exactValue?_ofList {signText body whole fraction : List Char} {negative : Bool}
    {exponent : Option (Bool × List Char)} (hsign : WritesSign signText negative)
    (hbody : WritesUnsigned body whole fraction exponent) :
    exactValue? (String.ofList (signText ++ body)) =
      some (signed negative (magnitude whole fraction exponent)) := by
  apply exactValue?_of_writes
  rw [String.toList_ofList]
  exact .mk hsign hbody

/-- Their values are opposite to the last digit. -/
theorem AreOpposite.exists_value {text other : String} (h : AreOpposite text other) :
    ∃ q, exactValue? text = some q ∧ exactValue? other = some (-q) := by
  obtain ⟨hsign, hother, hbody⟩ := h
  refine ⟨_, exactValue?_ofList hsign hbody, ?_⟩
  rw [exactValue?_ofList hother hbody, signed_not]

end ItemTable.Number

namespace ItemTable.Expression

open Number Numeral

/-- The sign of a finite number is turned, and nothing else. -/
theorem areOpposite_negated {text : String} {x : Numeral} (h : Writes text.toList x) :
    AreOpposite text (negated text) := by
  have htext : text = String.ofList text.toList := String.ofList_toList.symm
  rw [negated_eq, htext, String.toList_ofList]
  generalize text.toList = cs at h ⊢
  obtain @⟨_, _, _, _, negative, _, hsign, hbody⟩ := h
  rw [sign_append hsign hbody.startsUnsigned]
  cases negative with
  | true => exact .mk hsign .none hbody
  | false => exact .mk hsign .minus hbody

/-- The texts that the check of numbers accepts. -/
theorem exists_checkNumber_iff {field : String} {v : AttributeValue} :
    (∃ d, checkNumber field v = .ok d) ↔
      ∃ text x, v = .number text ∧ Writes text.toList x ∧ x.toDouble.isFinite = true := by
  unfold checkNumber
  constructor
  · rintro ⟨d, h⟩
    split at h
    · next hsome =>
      obtain ⟨text, x, rfl, hx, rfl, hfinite⟩ := AttributeValue.finiteNumber?_eq_some_iff.1 hsome
      obtain ⟨negative, whole, fraction, exponent, rfl⟩ := exists_finite hfinite
      exact ⟨text, _, rfl, ofText?_eq_finite_iff.1 hx, hfinite⟩
    · cases h
  · rintro ⟨text, x, rfl, hx, hfinite⟩
    have hsome : (AttributeValue.number text).finiteNumber? = some x.toDouble := by
      obtain ⟨negative, whole, fraction, exponent, rfl⟩ := exists_finite hfinite
      exact AttributeValue.finiteNumber?_eq_some_iff.2 ⟨text, _, rfl, ofText?_eq_finite_iff.2 hx,
        rfl, hfinite⟩
    exact ⟨x.toDouble, by rw [hsome]⟩

/-- The update with one more addition of a number. -/
def Update.adding (u : Update) (field number : String) : Update :=
  { u with updates := u.updates ++ [⟨field, .add (.number number)⟩] }

/-- What a decrement records of a number. -/
theorem Update.decrement_eq_ok_iff {u u' : Update} {field : String} {v : AttributeValue} :
    u.decrement field v = .ok u' ↔ (∃ d, checkNumber field v = .ok d) ∧
      ∃ text, v = .number text ∧ u.push field (.add (.number (negated text))) = .ok u' := by
  unfold decrement
  rw [bind_eq_ok]
  constructor
  · rintro ⟨d, hd, h⟩
    obtain ⟨text, x, rfl, -⟩ := exists_checkNumber_iff.1 ⟨d, hd⟩
    exact ⟨⟨d, hd⟩, text, rfl, h⟩
  · rintro ⟨⟨d, hd⟩, text, rfl, h⟩
    exact ⟨d, hd, h⟩

/-- The opposite of a number that is accepted is accepted. -/
theorem exists_checkNumber_negated {field : String} {text : String}
    (h : ∃ d, checkNumber field (.number text) = .ok d) (name : String) :
    ∃ d, checkNumber name (.number (negated text)) = .ok d := by
  obtain ⟨d, hd⟩ := h
  obtain ⟨d', hd'⟩ :=
    Option.isSome_iff_exists.1 (finiteNumber?_negated (finiteNumber_of_checkNumber hd))
  exact ⟨d', by rw [checkNumber, hd']⟩

/-- Turning the sign twice leaves the value as it is. -/
theorem exactValue?_opposite_twice {text other again : String} (h : AreOpposite text other)
    (h' : AreOpposite other again) : exactValue? again = exactValue? text := by
  obtain ⟨q, hq, hother⟩ := h.exists_value
  obtain ⟨q', hq', hagain⟩ := h'.exists_value
  rw [hother] at hq'
  cases hq'
  rw [hagain, hq, neg_neg]

/-- An update takes a decrement when it has room for one, the field has a name, and the value is the
text of a finite number, in whatever way it is written. What is recorded then is a text of the
opposite number that differs in its sign only, and it can be taken off again: that records the
number itself. -/
theorem Update.decrement_negates (u : Update) (field : String) (v : AttributeValue) :
    ((∃ u', u.decrement field v = .ok u') ↔
      checkFieldName field = .ok () ∧ u.updates.length < 100 ∧
        ∃ text x, v = .number text ∧ Writes text.toList x ∧ x.toDouble.isFinite = true) ∧
      ∀ u', u.decrement field v = .ok u' → ∃ text other,
        v = .number text ∧ u' = u.adding field other ∧ AreOpposite text other ∧
          (∃ q, exactValue? text = some q ∧ exactValue? other = some (-q)) ∧
          (∀ name, ∃ d, checkNumber name (.number other) = .ok d) ∧
          ∀ (w : Update) (name : String), checkFieldName name = .ok () → w.updates.length < 100 →
            ∃ again, w.decrement name (.number other) = .ok (w.adding name again) ∧
              AreOpposite other again ∧ exactValue? again = exactValue? text := by
  constructor
  · constructor
    · rintro ⟨u', h⟩
      obtain ⟨hcheck, text, rfl, hpush⟩ := decrement_eq_ok_iff.1 h
      obtain ⟨hfield, hroom, -⟩ := push_eq_ok.1 hpush
      exact ⟨hfield, hroom, exists_checkNumber_iff.1 hcheck⟩
    · rintro ⟨hfield, hroom, text, x, rfl, hx, hfinite⟩
      have hcheck : ∃ d, checkNumber field (.number text) = .ok d :=
        exists_checkNumber_iff.2 ⟨text, x, rfl, hx, hfinite⟩
      exact ⟨_, decrement_eq_ok_iff.2 ⟨hcheck, text, rfl, push_eq_ok.2 ⟨hfield, hroom, rfl⟩⟩⟩
  · intro u' h
    obtain ⟨hcheck, text, rfl, hpush⟩ := decrement_eq_ok_iff.1 h
    obtain ⟨-, -, rfl⟩ := push_eq_ok.1 hpush
    obtain ⟨_, x, heq, hx, -⟩ := exists_checkNumber_iff.1 hcheck
    cases heq
    have hopposite := areOpposite_negated hx
    have hrecorded := exists_checkNumber_negated hcheck
    refine ⟨text, negated text, rfl, rfl, hopposite, hopposite.exists_value, hrecorded, ?_⟩
    intro w name hname hroom
    obtain ⟨_, y, heq, hy, -⟩ := exists_checkNumber_iff.1 (hrecorded name)
    cases heq
    have hback := areOpposite_negated hy
    exact ⟨_,
      decrement_eq_ok_iff.2 ⟨hrecorded name, _, rfl, push_eq_ok.2 ⟨hname, hroom, rfl⟩⟩, hback,
      exactValue?_opposite_twice hopposite hback⟩

/-- A plus sign, no digit in front of the point, and an exponent with a sign of its own. -/
theorem bareFraction_decremented :
    Update.decrement {} "stock" (.number "+.50E-3") = .ok (Update.adding {} "stock" "-.50E-3") ∧
      AreOpposite "+.50E-3" "-.50E-3" ∧ exactValue? "+.50E-3" = some (1 / 2000) ∧
      exactValue? "-.50E-3" = some (-1 / 2000) ∧
      ∃ again, Update.decrement {} "stock" (.number "-.50E-3") =
        .ok (Update.adding {} "stock" again) ∧
        exactValue? again = some (1 / 2000) := by
  have hview : (Update.decrement {} "stock" (.number "+.50E-3")).toOption.map id =
      some (Update.adding {} "stock" "-.50E-3") := by
    decide +kernel
  obtain ⟨_, h, rfl⟩ := toOption_map_eq_some.1 hview
  have hvalue : exactValue? "+.50E-3" = some (1 / 2000) := by decide +kernel
  have hother : exactValue? "-.50E-3" = some (-1 / 2000) := by decide +kernel
  obtain ⟨text, other, heq, hadding, hopposite, -, -, hback⟩ :=
    (Update.decrement_negates {} "stock" (.number "+.50E-3")).2 _ h
  cases heq
  obtain rfl : other = "-.50E-3" := by
    cases hadding
    rfl
  obtain ⟨again, hagain, -, hsame⟩ := hback {} "stock" rfl (by decide)
  exact ⟨h, hopposite, hvalue, hother, again, hagain, hsame.trans hvalue⟩

end ItemTable.Expression
