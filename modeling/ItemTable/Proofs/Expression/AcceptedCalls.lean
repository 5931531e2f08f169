import ItemTable.Expression.Scan
import ItemTable.Expression.Update
import ItemTable.Proofs.Outcome

/-!
# What accepted calls do

A call on a builder is accepted just when all its checks are, and then it changes what is said here
and nothing else. What a builder keeps is derived from these equivalences, which alone open its
methods.
-/
namespace ItemTable.Expression

theorem Condition.of_eq_ok {field : String} {operator : Operator} {operand : Operand}
    {c : Condition} :
    Condition.of field operator operand = .ok c ↔ checkFieldName field = .ok () ∧
      ∃ test, Test.check field operator operand = .ok test ∧ c = ⟨field, test⟩ := by
  unfold of
  rw [bind_eq_ok]
  constructor
  · rintro ⟨⟨⟩, hfield, h⟩
    obtain ⟨test, htest, h⟩ := bind_eq_ok.1 h
    cases h
    exact ⟨hfield, test, htest, rfl⟩
  · rintro ⟨hfield, test, htest, rfl⟩
    exact ⟨(), hfield, bind_eq_ok.2 ⟨test, htest, rfl⟩⟩

/-- A query asks for room after the condition has been checked. -/
theorem Query.add_eq_ok {q q' : Query} {field : String} {operator : Operator} {operand : Operand} :
    q.add field operator operand = .ok q' ↔ q.conditions.length < maxConditions ∧
      ∃ c, Condition.of field operator operand = .ok c ∧
        q' = { q with conditions := q.conditions ++ [c] } := by
  unfold add
  rw [bind_eq_ok]
  constructor
  · rintro ⟨c, hc, h⟩
    obtain ⟨hroom, rfl⟩ := guard_eq_ok.1 h
    exact ⟨Nat.not_le.1 hroom, c, hc, rfl⟩
  · rintro ⟨hroom, c, hc, rfl⟩
    exact ⟨c, hc, guard_eq_ok.2 ⟨Nat.not_le.2 hroom, rfl⟩⟩

/-- An update has room for each accepted change of a field. -/
theorem Update.push_eq_ok {u u' : Update} {field : String} {action : Action} :
    u.push field action = .ok u' ↔ checkFieldName field = .ok () ∧ u.updates.length < maxUpdates ∧
      u' = { u with updates := u.updates ++ [⟨field, action⟩] } := by
  unfold push
  rw [bind_eq_ok]
  constructor
  · rintro ⟨⟨⟩, hfield, h⟩
    obtain ⟨hroom, rfl⟩ := guard_eq_ok.1 h
    exact ⟨hfield, Nat.not_le.1 hroom, rfl⟩
  · rintro ⟨hfield, hroom, rfl⟩
    exact ⟨(), hfield, guard_eq_ok.2 ⟨Nat.not_le.2 hroom, rfl⟩⟩

namespace Scan

variable {s s' : Scan}

theorem checkRoom_eq_ok : s.checkRoom = .ok () ↔ s.fragments.length < maxConditions := by
  rw [checkRoom, guard_eq_ok, Nat.not_le]
  exact and_iff_left rfl

/-- An accepted condition is kept, and its fragment is written with what the scan has. -/
theorem add_eq_ok {field : String} {operator : Operator} {operand : Operand} :
    s.add field operator operand = .ok s' ↔ s.checkRoom = .ok () ∧
      ∃ c, Condition.of field operator operand = .ok c ∧
        s' = { s with
          conditions := s.conditions ++ [c]
          fragments := s.fragments ++ [(c.render s.resolver s.binder).1]
          resolver := (c.render s.resolver s.binder).2.1
          binder := (c.render s.resolver s.binder).2.2 } := by
  unfold add
  rw [bind_eq_ok]
  constructor
  · rintro ⟨⟨⟩, hroom, h⟩
    obtain ⟨c, hc, h⟩ := bind_eq_ok.1 h
    cases h
    exact ⟨hroom, c, hc, rfl⟩
  · rintro ⟨hroom, c, hc, rfl⟩
    exact ⟨(), hroom, bind_eq_ok.2 ⟨c, hc, rfl⟩⟩

theorem addPresence_eq_ok {presence : Presence} {field : String} :
    s.addPresence presence field = .ok s' ↔ s.checkRoom = .ok () ∧ checkFieldName field = .ok () ∧
      s' = { s with
        fragments := s.fragments ++ [presence.name ++ "(" ++ (s.resolver.path field).1 ++ ")"]
        resolver := (s.resolver.path field).2 } := by
  unfold addPresence
  rw [bind_eq_ok]
  constructor
  · rintro ⟨⟨⟩, hroom, h⟩
    obtain ⟨⟨⟩, hfield, h⟩ := bind_eq_ok.1 h
    cases h
    exact ⟨hroom, hfield, rfl⟩
  · rintro ⟨hroom, hfield, rfl⟩
    exact ⟨(), hroom, bind_eq_ok.2 ⟨(), hfield, rfl⟩⟩

theorem addFilter_eq_ok {expression : String} {names : List (String × String)}
    {values : List (String × AttributeValue)} :
    s.addFilter expression names values = .ok s' ↔ s.checkRoom = .ok () ∧
      ∃ text r b, adoptFilter s.resolver s.binder expression names values = .ok (text, r, b) ∧
        s' = { s with fragments := s.fragments ++ [text], resolver := r, binder := b } := by
  unfold addFilter
  rw [bind_eq_ok]
  constructor
  · rintro ⟨⟨⟩, hroom, h⟩
    obtain ⟨⟨text, r, b⟩, hadopt, h⟩ := bind_eq_ok.1 h
    cases h
    exact ⟨hroom, text, r, b, hadopt, rfl⟩
  · rintro ⟨hroom, text, r, b, hadopt, rfl⟩
    exact ⟨(), hroom, bind_eq_ok.2 ⟨(text, r, b), hadopt, rfl⟩⟩

theorem inParallel_eq_ok {total number : Nat} :
    s.inParallel total number = .ok s' ↔
      ¬(total = 0 ∨ maxSegments < total ∨ total ≤ number) ∧
        s' = { s with segment := some { number, total } } := guard_eq_ok

end Scan

end ItemTable.Expression
