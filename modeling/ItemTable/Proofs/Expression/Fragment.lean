import ItemTable.Expression.Condition
import ItemTable.Expression.Query
import ItemTable.Proofs.Expression.Names
import Mathlib.Data.List.Nodup

/-!
# Value placeholders and fragments

A binder numbers its placeholders: each is a reference to itself (`isValueRef_numbered`), and none
is bound twice as long as the numbers are used up one by one (`Binder.Numbered`). A fragment refers
to its attribute and to its operands (`refs_fragment`).
-/
namespace ItemTable.Expression

/-- A placeholder of a value: the sign with a word behind it. -/
def IsValueRef (key : String) : Prop :=
  key.toList.head? = some ':' ∧ key.toList.tail ≠ [] ∧ key.toList.tail.all isWordChar = true

instance (key : String) : Decidable (IsValueRef key) := inferInstanceAs (Decidable (_ ∧ _ ∧ _))

theorem IsValueRef.starts {key : String} (h : IsValueRef key) :
    ∃ c cs, key.toList = c :: cs ∧ isWordChar c = false := by
  obtain ⟨word, htext⟩ := List.head?_eq_some_iff.1 h.1
  exact ⟨':', word, htext, by decide⟩

/-- A placeholder of a value refers to itself and to no name. -/
theorem refs_valueRef {key : String} (h : IsValueRef key) :
    refs ':' key = [key] ∧ refs '#' key = [] := by
  obtain ⟨hhead, hne, hword⟩ := h
  obtain ⟨word, htext⟩ := List.head?_eq_some_iff.1 hhead
  rw [htext, List.tail_cons] at hne hword
  have hall := List.all_eq_true.1 hword
  constructor
  · have hone := refs_sign_cons (.inr rfl) hne hall
    rwa [← htext, String.ofList_toList] at hone
  · apply refs_of_not_mem
    rw [htext, List.mem_cons, not_or]
    exact ⟨by decide, (hasNoSign_of_isWord hall).not_mem (.inl rfl)⟩

namespace Binder

/-- A stem of value placeholders: the sign and a word, which a number may go on with. -/
abbrev IsStem (stem : String) : Prop :=
  stem.toList.head? = some ':' ∧ stem.toList.tail.all isWordChar = true

theorem toList_numbered (stem : String) (number : Nat) :
    (stem ++ toString number).toList = stem.toList ++ Nat.toDigits 10 number := by
  rw [String.toList_append, Nat.toString_eq_ofList_toDigits, String.toList_ofList]

theorem isValueRef_numbered {stem : String} (hstem : IsStem stem) (number : Nat) :
    IsValueRef (stem ++ toString number) := by
  obtain ⟨hhead, hword⟩ := hstem
  obtain ⟨word, htext⟩ := List.head?_eq_some_iff.1 hhead
  rw [htext, List.tail_cons] at hword
  rw [IsValueRef, toList_numbered, htext, List.cons_append]
  refine ⟨rfl, ?_, ?_⟩
  · simp [Nat.toDigits_ne_nil]
  · rw [List.tail_cons, List.all_append, hword, Bool.true_and, List.all_eq_true]
    exact fun c hc => isWordChar_of_mem_toDigits hc

@[simp] theorem length_bindAll (b : Binder) (vs : List AttributeValue) :
    (b.bindAll vs).1.length = vs.length := by
  induction vs generalizing b with
  | nil => rfl
  | cons v rest ih => exact congrArg (· + 1) (ih (b.bind v).2)

@[simp] theorem bindAll_stem (b : Binder) (vs : List AttributeValue) :
    (b.bindAll vs).2.stem = b.stem := by
  induction vs generalizing b with
  | nil => rfl
  | cons v rest ih => exact ih (b.bind v).2

/-- A stem of numbered placeholders that no number can run into. -/
def EndsStem (stem : String) : Prop := ∀ c ∈ stem.toList, c.isDigit = false

instance (stem : String) : Decidable (EndsStem stem) :=
  decidable_of_iff (stem.toList.all (fun c => !c.isDigit) = true) (by simp [EndsStem])

/-- A numbered placeholder shows its stem and its number. -/
theorem numbered_inj {stem stem' : String} (h : EndsStem stem) (h' : EndsStem stem') {m n : Nat}
    (heq : stem ++ toString m = stem' ++ toString n) : stem = stem' ∧ m = n := by
  have hstem : stem = stem' := by
    -- a stem reaches up to the first digit, since it has none itself
    have htake (s : String) (hs : EndsStem s) (number : Nat) :
        (s ++ toString number).toList.takeWhile (fun c => !c.isDigit) = s.toList := by
      have hdigits : (Nat.toDigits 10 number).takeWhile (fun c => !c.isDigit) = [] := by
        refine List.takeWhile_eq_nil_iff.2 fun hpos => ?_
        simpa using Nat.isDigit_of_mem_toDigits (by decide) (by decide) (List.getElem_mem hpos)
      rw [toList_numbered, List.takeWhile_append_of_pos fun c hc => by simp [hs c hc], hdigits,
        List.append_nil]
    rw [← String.toList_inj, ← htake stem h m, heq, htake stem' h' n]
  subst hstem
  exact ⟨rfl, toString_inj.1 ((String.append_right_inj stem).1 heq)⟩

/-- Every number below the next one is used up by placeholders of stems of its own. -/
structure Numbered (b : Binder) : Prop where
  distinct : (b.bound.map Prod.fst).Nodup
  below : ∀ key ∈ b.bound.map Prod.fst,
    ∃ stem number, EndsStem stem ∧ number < b.next ∧ key = stem ++ toString number

namespace Numbered

variable {b b' : Binder}

theorem start (stem : String) (next : Nat) : Numbered { stem, next } :=
  ⟨List.nodup_nil, fun _ hkey => absurd hkey List.not_mem_nil⟩

/-- The next number may go to several placeholders, if their stems are different. -/
theorem take (h : b.Numbered) {stems : List String} (hnodup : stems.Nodup)
    (hstems : ∀ stem ∈ stems, EndsStem stem) (hnext : b'.next = b.next + 1)
    (hbound : b'.bound.map Prod.fst =
      b.bound.map Prod.fst ++ stems.map fun stem => stem ++ toString b.next) : b'.Numbered := by
  have hnew {key : String} (hkey : key ∈ stems.map fun stem => stem ++ toString b.next) :
      ∃ stem ∈ stems, key = stem ++ toString b.next := by
    obtain ⟨stem, hstem, rfl⟩ := List.mem_map.1 hkey
    exact ⟨stem, hstem, rfl⟩
  constructor
  case distinct =>
    rw [hbound, List.nodup_append]
    refine ⟨h.distinct, List.Nodup.map_on (fun stem hstem stem' hstem' heq => ?_) hnodup, ?_⟩
    · exact (numbered_inj (hstems stem hstem) (hstems stem' hstem') heq).1
    · -- a placeholder that is bound already shows a number that is used up
      rintro key hold key' hkey' rfl
      obtain ⟨stem, number, hends, hlt, rfl⟩ := h.below key hold
      obtain ⟨stem', hstem', heq⟩ := hnew hkey'
      obtain ⟨-, rfl⟩ := numbered_inj hends (hstems stem' hstem') heq
      exact Nat.lt_irrefl _ hlt
  case below =>
    intro key hkey
    rw [hbound] at hkey
    rw [hnext]
    rcases List.mem_append.1 hkey with hold | hkey
    · obtain ⟨stem, number, hends, hlt, heq⟩ := h.below key hold
      exact ⟨stem, number, hends, Nat.lt_succ_of_lt hlt, heq⟩
    · obtain ⟨stem, hstem, heq⟩ := hnew hkey
      exact ⟨stem, b.next, hstems stem hstem, Nat.lt_succ_self _, heq⟩

theorem bind (h : b.Numbered) (hstem : EndsStem b.stem) (v : AttributeValue) :
    (b.bind v).2.Numbered := by
  refine h.take (List.nodup_singleton b.stem) (fun stem hmem => ?_) rfl ?_
  · rwa [List.mem_singleton.1 hmem]
  · exact List.map_append

theorem bindAll (h : b.Numbered) (hstem : EndsStem b.stem) (vs : List AttributeValue) :
    (b.bindAll vs).2.Numbered := by
  induction vs generalizing b with
  | nil => exact h
  | cons v rest ih => exact ih (h.bind hstem v) hstem

end Numbered

end Binder

variable {sign : Char}

theorem refs_closed (hsign : IsSign sign) {closing : String} (h : IsSeparator closing)
    (text : String) : refs sign (text ++ closing) = refs sign text := by
  obtain ⟨hapart, -, hnone⟩ := h
  rw [refs_append hapart, refs_of_not_mem (hnone.not_mem hsign), List.append_nil]

/-- A call of a function with two arguments refers to what they refer to. -/
theorem refs_call (hsign : IsSign sign) {function : String} (hnone : HasNoSign function.toList)
    (name operand : String) :
    refs sign (function ++ name ++ ", " ++ operand ++ ")") =
      refs sign name ++ refs sign operand := by
  rw [refs_closed hsign (by decide), refs_separated hsign (by decide),
    refs_append_of_not_mem (hnone.not_mem hsign)]

theorem refs_fragment (hsign : IsSign sign) (test : Test) (name : String) {operands : List String}
    (h : operands.length = (Condition.operands test).length) :
    refs sign (Condition.fragment test name operands) =
      refs sign name ++ operands.flatMap (refs sign) := by
  cases test with
  | equals v | notEquals v | greaterThan v | lessThan v =>
    obtain ⟨operand, rfl⟩ := List.length_eq_one_iff.1 h
    simp only [Condition.fragment, List.headD_cons]
    rw [refs_separated hsign (by decide), List.flatMap_singleton]
  | contains v | beginsWith v =>
    obtain ⟨operand, rfl⟩ := List.length_eq_one_iff.1 h
    simp only [Condition.fragment, List.headD_cons]
    rw [refs_call hsign (by decide), List.flatMap_singleton]
  | oneOf vs =>
    simp only [Condition.fragment]
    rw [refs_closed hsign (by decide), refs_separated hsign (by decide),
      refs_joinWith hsign (by decide)]
  | between low high =>
    obtain ⟨first, last, rfl⟩ := List.length_eq_two.1 h
    simp only [Condition.fragment, List.headD_cons, List.getLastD_cons, List.getLastD_nil]
    rw [refs_separated hsign (by decide), refs_separated hsign (by decide), List.append_assoc,
      List.flatMap_cons, List.flatMap_singleton]

theorem Condition.renderAll_numbered (r : Resolver) {b : Binder} (h : b.Numbered)
    (hstem : Binder.EndsStem b.stem) (cs : List Condition) : (renderAll r b cs).2.2.Numbered := by
  induction cs generalizing r b with
  | nil => exact h
  | cons c rest ih =>
    have hsame := b.bindAll_stem (operands c.test)
    exact ih (c.render r b).2.1 (h.bindAll hstem (operands c.test)) (hsame ▸ hstem)

end ItemTable.Expression
