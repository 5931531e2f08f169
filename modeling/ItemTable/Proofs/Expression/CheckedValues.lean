import ItemTable.Proofs.Expression.UpdateMeaning
import ItemTable.Proofs.Expression.GrammaticalReferences
import ItemTable.Proofs.Expression.ScanNumbering
import ItemTable.Proofs.HeldTexts
import ItemTable.Proofs.Number.Opposite

/-!
# What the checks let through

A value that passes its check is neither null nor holds a text that is too long, at any depth
(`checkValue_eq_ok_iff`). The checks of the operators and of the actions are narrower, and each of
them lets through only such values: a finite number has no text in it, and the elements that are
added to a list are checked one by one (`Condition.isValid_of`, `UpdateCall.isValid_of_apply`).
-/
namespace ItemTable.Expression

/-- A value that an expression may bind: it is not null, and no text inside it is too long. -/
structure IsStorable (v : AttributeValue) : Prop where
  notNull : v.tag ≠ .null
  short : ∀ s, v.Holds s → s.length ≤ 400000

/-- A name of letters, digits and underscores. -/
structure IsFieldName (field : String) : Prop where
  ne_empty : field ≠ ""
  word : ∀ c ∈ field.toList, (c.isAlphanum || c = '_') = true

/-- The operand has the shape that the operator takes. -/
def Operand.Fits (operator : Operator) (operand : Operand) : Prop :=
  match operator, operand with
  | .equals, .single _ | .notEquals, .single _ | .contains, .single _ => True
  | .greaterThan, .single v | .lessThan, .single v => v.finiteNumber?.isSome = true
  | .beginsWith, .single v => v.tag = .text
  | .oneOf, .list vs => 1 ≤ vs.length ∧ vs.length ≤ 100
  | .between, .range low high => low.tag = high.tag ∧ low.tag ∈ [.text, .number, .binary]
  | _, _ => False

section Check

variable {field : String} {v : AttributeValue}

theorem isFieldName_of_checkFieldName (h : checkFieldName field = .ok ()) : IsFieldName field := by
  obtain ⟨hne, hword⟩ := isWord_of_checkFieldName h
  exact ⟨fun hempty => hne (by rw [hempty]; rfl), hword⟩

theorem checkValue_eq_ok_iff : checkValue field v = .ok () ↔ IsStorable v := by
  have hshort : ¬maxTextLength < v.longestText ↔ ∀ s, v.Holds s → s.length ≤ 400000 := by
    rw [Nat.not_lt]
    exact AttributeValue.longestText_le_iff _ v
  unfold checkValue
  split
  · next hnull => exact iff_of_false (fun h => by cases h) fun h => h.notNull hnull
  · next hnull =>
    split
    · next hlong => exact iff_of_false (fun h => by cases h) fun h => hshort.2 h.short hlong
    · next hlong => exact iff_of_true rfl ⟨hnull, hshort.1 hlong⟩

theorem isStorable_of_isNumber {n : String} (h : v.asNumber? = some n) : IsStorable v := by
  cases v with
  | number n => exact ⟨ValueTag.noConfusion, fun s hs => by cases hs⟩
  | text | binary | textSet | numberSet | binarySet | boolean | null | list | map => cases h

theorem isStorable_of_finiteNumber (h : v.finiteNumber?.isSome = true) : IsStorable v := by
  cases hnumber : v.asNumber? with
  | some n => exact isStorable_of_isNumber hnumber
  | none =>
    rw [AttributeValue.finiteNumber?, hnumber] at h
    cases h

theorem finiteNumber_of_checkNumber {d : Number.Double} (h : checkNumber field v = .ok d) :
    v.finiteNumber?.isSome = true := by
  unfold checkNumber at h
  split at h
  · next hsome =>
    rw [hsome]
    rfl
  · cases h

theorem checkText_ok {s : String} (h : checkText field v = .ok s) : v = .text s ∧ IsStorable v := by
  obtain ⟨⟨⟩, hvalue, h⟩ := bind_eq_ok.1 h
  refine ⟨?_, checkValue_eq_ok_iff.1 hvalue⟩
  cases v with
  | text s =>
    cases h
    rfl
  | number | binary | textSet | numberSet | binarySet | boolean | null | list | map => cases h

theorem checkSet_ok (h : checkSet field v = .ok ()) : v.isSet = true ∧ IsStorable v := by
  obtain ⟨⟨⟩, hvalue, h⟩ := bind_eq_ok.1 h
  refine ⟨?_, checkValue_eq_ok_iff.1 hvalue⟩
  split at h
  · assumption
  · cases h

theorem checkAddend_ok (h : checkAddend field v = .ok ()) :
    (v.finiteNumber?.isSome = true ∨ v.isSet = true) ∧ IsStorable v := by
  unfold checkAddend at h
  split at h
  · next hnumber =>
    obtain ⟨d, hd, -⟩ := map_eq_ok.1 h
    exact ⟨.inl (finiteNumber_of_checkNumber hd), isStorable_of_isNumber hnumber⟩
  · cases hset : checkSet field v with
    | error e =>
      rw [hset] at h
      cases h
    | ok _ =>
      obtain ⟨hset, hstorable⟩ := checkSet_ok hset
      exact ⟨.inr hset, hstorable⟩

theorem checkRange_ok {low high : AttributeValue} (h : checkRange field low high = .ok ()) :
    (Operand.range low high).Fits .between ∧ IsStorable low ∧ IsStorable high := by
  obtain ⟨⟨⟩, hlow, h⟩ := bind_eq_ok.1 h
  obtain ⟨⟨⟩, hhigh, h⟩ := bind_eq_ok.1 h
  refine ⟨?_, checkValue_eq_ok_iff.1 hlow, checkValue_eq_ok_iff.1 hhigh⟩
  split at h
  · exact ⟨rfl, by simp [AttributeValue.tag]⟩
  · exact ⟨rfl, by simp [AttributeValue.tag]⟩
  · exact ⟨rfl, by simp [AttributeValue.tag]⟩
  · cases h

theorem listElements_ok {items : List AttributeValue} (h : listElements field v = .ok items) :
    items ≠ [] ∧ ∀ a ∈ items, IsStorable a := by
  simp only [listElements] at h
  split at h
  · cases h
  · next hne =>
    obtain ⟨⟨⟩, hall, h⟩ := bind_eq_ok.1 h
    cases h
    refine ⟨fun hnil => hne (by rw [hnil]; rfl), fun a ha => ?_⟩
    exact checkValue_eq_ok_iff.1 (forM_eq_ok.1 hall a ha)

end Check

/-- An accepted operand fits its operator, and its values can be bound. -/
theorem Test.fits_of_check {field : String} {operator : Operator} {operand : Operand} {test : Test}
    (h : Test.check field operator operand = .ok test) :
    operand.Fits operator ∧ ∀ v ∈ operand.values, IsStorable v := by
  unfold Test.check at h
  split at h
  case h_1 | h_2 | h_3 =>
    obtain ⟨⟨⟩, hvalue, -⟩ := map_eq_ok.1 h
    exact ⟨trivial, List.forall_mem_singleton.2 (checkValue_eq_ok_iff.1 hvalue)⟩
  case h_4 | h_5 =>
    obtain ⟨d, hnumber, -⟩ := map_eq_ok.1 h
    have hfinite := finiteNumber_of_checkNumber hnumber
    exact ⟨hfinite, List.forall_mem_singleton.2 (isStorable_of_finiteNumber hfinite)⟩
  case h_6 =>
    obtain ⟨s, htext, -⟩ := map_eq_ok.1 h
    obtain ⟨rfl, hstorable⟩ := checkText_ok htext
    exact ⟨rfl, List.forall_mem_singleton.2 hstorable⟩
  case h_7 =>
    obtain ⟨⟨⟩, hrange, -⟩ := map_eq_ok.1 h
    obtain ⟨hfits, hlow, hhigh⟩ := checkRange_ok hrange
    exact ⟨hfits, List.forall_mem_cons.2 ⟨hlow, List.forall_mem_singleton.2 hhigh⟩⟩
  case h_8 vs =>
    split at h
    · cases h
    · next hne =>
      split at h
      · cases h
      · next hmost =>
        obtain ⟨⟨⟩, hall, -⟩ := map_eq_ok.1 h
        refine ⟨⟨?_, Nat.not_lt.1 hmost⟩, fun v hv => ?_⟩
        · exact List.length_pos_iff.2 fun hnil => hne (List.isEmpty_iff.2 hnil)
        · exact checkValue_eq_ok_iff.1 (forM_eq_ok.1 hall v hv)
  case h_9 => cases h

/-- A condition as a builder may hold it. -/
structure Condition.IsValid (c : Condition) : Prop where
  field : IsFieldName c.field
  fits : c.test.operand.Fits c.test.operator
  storable : ∀ v ∈ operands c.test, IsStorable v

theorem Condition.isValid_of {field : String} {operator : Operator} {operand : Operand}
    {c : Condition} (h : Condition.of field operator operand = .ok c) : c.IsValid := by
  obtain ⟨hfield, test, htest, rfl⟩ := of_eq_ok.1 h
  obtain ⟨hfits, hstorable⟩ := Test.fits_of_check htest
  obtain ⟨rfl, rfl⟩ := Test.of_check htest
  refine ⟨isFieldName_of_checkFieldName hfield, hfits, ?_⟩
  rwa [operands_eq]

/-- What an action may do to a field. -/
def Action.IsValid : Action → Prop
  | .set v => IsStorable v
  | .append items | .prepend items => items ≠ [] ∧ ∀ v ∈ items, IsStorable v
  | .remove => True
  | .add v => (v.finiteNumber?.isSome = true ∨ v.isSet = true) ∧ IsStorable v
  | .delete v => v.isSet = true ∧ IsStorable v

/-- A list of values that can be bound can be bound. -/
theorem isStorable_list {items : List AttributeValue} (h : ∀ v ∈ items, IsStorable v) :
    IsStorable (.list items) := by
  refine ⟨ValueTag.noConfusion, fun s hs => ?_⟩
  cases hs with
  | item hmem hs => exact (h _ hmem).short s hs

/-- The values that a valid action binds can be bound. -/
theorem Action.IsValid.storable {action : Action} (h : action.IsValid) :
    ∀ v ∈ action.operands, IsStorable v := by
  have hempty : IsStorable (.list []) := isStorable_list fun v hv => absurd hv List.not_mem_nil
  cases action with
  | remove => exact fun v hv => absurd hv List.not_mem_nil
  | set v => exact List.forall_mem_singleton.2 h
  | add v | delete v => exact List.forall_mem_singleton.2 h.2
  | append items | prepend items =>
    exact List.forall_mem_cons.2 ⟨hempty, List.forall_mem_singleton.2 (isStorable_list h.2)⟩

/-- An update as a builder may hold it. -/
structure FieldUpdate.IsValid (u : FieldUpdate) : Prop where
  field : IsFieldName u.field
  action : u.action.IsValid

/-- What an accepted call records is valid. A number that is taken off stays finite with the
opposite sign. -/
theorem UpdateCall.isValid_of_apply {u u' : Update} {call : UpdateCall}
    (h : call.apply u = .ok u') :
    ∀ recorded ∈ call.recorded?, recorded.IsValid := by
  intro recorded hmem
  refine ⟨isFieldName_of_checkFieldName ((updates_apply h).2 recorded hmem), ?_⟩
  cases call with
  | remove field =>
    cases hmem
    exact trivial
  | set field v =>
    obtain ⟨⟨⟩, hvalue, -⟩ := bind_eq_ok.1 h
    cases hmem
    exact checkValue_eq_ok_iff.1 hvalue
  | add field v =>
    obtain ⟨⟨⟩, hvalue, -⟩ := bind_eq_ok.1 h
    cases hmem
    exact checkAddend_ok hvalue
  | delete field v =>
    obtain ⟨⟨⟩, hvalue, -⟩ := bind_eq_ok.1 h
    cases hmem
    exact checkSet_ok hvalue
  | increment field v =>
    obtain ⟨d, hnumber, -⟩ := bind_eq_ok.1 h
    cases hmem
    have hfinite := finiteNumber_of_checkNumber hnumber
    exact ⟨.inl hfinite, isStorable_of_finiteNumber hfinite⟩
  | decrement field v =>
    obtain ⟨d, hnumber, -⟩ := bind_eq_ok.1 h
    have hfinite := finiteNumber_of_checkNumber hnumber
    cases v with
    | number n =>
      cases hmem
      have hopposite := finiteNumber?_negated hfinite
      exact ⟨.inl hopposite, isStorable_of_finiteNumber hopposite⟩
    | text | binary | textSet | numberSet | binarySet | boolean | null | list | map => cases hfinite
  | append field v | prepend field v =>
    obtain ⟨items, hitems, -⟩ := bind_eq_ok.1 h
    cases hmem
    exact listElements_eq_ok hitems ▸ listElements_ok hitems
  | leaveAlone names => cases hmem

end ItemTable.Expression
