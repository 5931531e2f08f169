import ItemTable.Expression.Update

/-!
# The opposite of a number text

Behind its sign a number text reads the same whatever the sign is, and the sign changes nothing
about the size of the number that it is nearest to. A second sign is no number. So turning the sign
of a text that is a number gives the text of the opposite number (`ofText?_negated`), which is
finite if the number is.
-/
namespace ItemTable.Number

namespace Numeral

/-- A numeral with another sign. -/
def withSign (negative : Bool) : Numeral → Numeral
  | finite _ whole fraction exponent => finite negative whole fraction exponent
  | infinite _ => infinite negative
  | notANumber => notANumber

theorem size_toDouble_withSign (negative : Bool) (x : Numeral) :
    (x.withSign negative).toDouble.size = x.toDouble.size := by
  cases x with
  | finite _ whole fraction exponent =>
    simp only [withSign, toDouble]
    split <;> rfl
  | infinite _ => rfl
  | notANumber => rfl

theorem isFinite_toDouble_withSign (negative : Bool) (x : Numeral) :
    (x.withSign negative).toDouble.isFinite = x.toDouble.isFinite := by
  rw [Double.isFinite, size_toDouble_withSign, Double.isFinite]

/-- What stands behind a sign is read without it. -/
theorem unsigned?_withSign (negative other : Bool) (cs : List Char) :
    unsigned? other cs = (unsigned? negative cs).map (withSign other) := by
  simp only [unsigned?]
  split
  all_goals
    split
    · rfl
    · rw [Option.map_map]
      rfl

theorem word?_withSign (negative other : Bool) (cs : List Char) :
    word? other cs = (word? negative cs).map (withSign other) := by
  unfold word?
  simp only
  split
  · rfl
  · split <;> rfl

/-- What is read behind the sign of a text. -/
def behindSign? (negative : Bool) (cs : List Char) : Option Numeral :=
  (unsigned? negative cs).or (word? negative cs)

theorem ofText?_eq (text : String) :
    ofText? text = behindSign? (sign text.toList).1 (sign text.toList).2 := rfl

theorem behindSign?_withSign (negative other : Bool) (cs : List Char) :
    behindSign? other cs = (behindSign? negative cs).map (withSign other) := by
  rw [behindSign?, unsigned?_withSign negative other, word?_withSign negative other, behindSign?,
    Option.map_or]

/-- No number has two signs. -/
theorem behindSign?_of_sign {c : Char} (hc : c = '-' ∨ c = '+') (negative : Bool)
    (rest : List Char) :
    behindSign? negative (c :: rest) = none := by
  have hunsigned : unsigned? negative (c :: rest) = none := by
    rcases hc with rfl | rfl <;> rfl
  have hword : word? negative (c :: rest) = none := by
    rcases hc with rfl | rfl <;> simp [word?]
  rw [behindSign?, hunsigned, hword]
  rfl

/-- A text without a sign is read as it stands. -/
theorem sign_of_behindSign? {negative : Bool} {cs : List Char} {x : Numeral}
    (h : behindSign? negative cs = some x) : sign cs = (false, cs) := by
  unfold sign
  split
  · rw [behindSign?_of_sign (.inl rfl)] at h
    cases h
  · rw [behindSign?_of_sign (.inr rfl)] at h
    cases h
  · rfl

end Numeral

end ItemTable.Number

namespace ItemTable.Expression

open Number Numeral

theorem negated_eq (text : String) : negated text = String.ofList
    (if (sign text.toList).1 then (sign text.toList).2 else '-' :: (sign text.toList).2) := by
  unfold negated sign
  generalize text.toList = cs
  cases cs with
  | nil => rfl
  | cons c rest =>
    by_cases hminus : c = '-'
    · subst hminus
      rfl
    · by_cases hplus : c = '+'
      · subst hplus
        rfl
      · simp [hminus, hplus]

/-- The text of a number, with its sign turned, is that of the opposite number. -/
theorem ofText?_negated {text : String} {x : Numeral} (h : ofText? text = some x) :
    ofText? (negated text) = some (x.withSign (!(sign text.toList).1)) := by
  rw [ofText?_eq] at h
  have hturned :=
    behindSign?_withSign (sign text.toList).1 (!(sign text.toList).1) (sign text.toList).2
  rw [h, Option.map_some] at hturned
  rw [← hturned, ofText?_eq, negated_eq]
  generalize sign text.toList = signed at h ⊢
  obtain ⟨negative, rest⟩ := signed
  cases negative with
  | true =>
    have hrest : sign rest = (false, rest) := sign_of_behindSign? h
    rw [if_pos rfl, String.toList_ofList, hrest]
    rfl
  | false =>
    rw [if_neg Bool.false_ne_true, String.toList_ofList]
    rfl

/-- The opposite of a finite number is finite. -/
theorem finiteNumber?_negated {text : String}
    (h : (AttributeValue.number text).finiteNumber?.isSome = true) :
    (AttributeValue.number (negated text)).finiteNumber?.isSome = true := by
  obtain ⟨d, hd⟩ := Option.isSome_iff_exists.1 h
  obtain ⟨hd, hfinite⟩ := Option.filter_eq_some_iff.1 hd
  obtain ⟨x, hx, rfl⟩ := Option.map_eq_some_iff.1 hd
  have hnegated : (AttributeValue.number (negated text)).finiteNumber? =
      some (x.withSign (!(sign text.toList).1)).toDouble := by
    show ((ofText? (negated text)).map toDouble).filter _ = _
    rw [ofText?_negated hx, Option.map_some, Option.filter_some, isFinite_toDouble_withSign,
      if_pos hfinite]
  rw [hnegated]
  rfl

end ItemTable.Expression
