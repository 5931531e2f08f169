import ItemTable.Expression.Resolver
import ItemTable.Proofs.Bindings
import ItemTable.Proofs.Expression.Reference

/-!
# Names that a resolver writes

A resolver only ever adds names (`Resolver.Extends`), so that a placeholder means the same in every
text that it writes. Asking for a placeholder adds that placeholder and nothing else
(`Resolver.mem_keys_placeholder`), and what is written refers to it (`Resolver.refs_placeholder`).
-/
namespace ItemTable.Expression

theorem isWordChar_of_isDigit {c : Char} (h : c.isDigit = true) : isWordChar c = true := by
  simp [isWordChar, Char.isAlphanum, h]

theorem isWordChar_of_mem_toDigits {n : Nat} {c : Char} (h : c ∈ Nat.toDigits 10 n) :
    isWordChar c = true :=
  isWordChar_of_isDigit (Nat.isDigit_of_mem_toDigits (by decide) (by decide) h)

theorem toString_inj {m n : Nat} : toString m = toString n ↔ m = n := by
  constructor
  · intro h
    have hdigits : Nat.toDigits 10 m = Nat.toDigits 10 n := by
      rwa [Nat.toString_eq_ofList_toDigits, Nat.toString_eq_ofList_toDigits, String.ofList_inj] at h
    calc
      m = Nat.ofDigitChars 10 (Nat.toDigits 10 m) 0 := Nat.ofDigitChars_ten_toDigits.symm
      _ = Nat.ofDigitChars 10 (Nat.toDigits 10 n) 0 := by rw [hdigits]
      _ = n := Nat.ofDigitChars_ten_toDigits
  · rintro rfl
    rfl

theorem toList_namePlaceholder (number : Nat) :
    (namePlaceholder number).toList = '#' :: 'n' :: Nat.toDigits 10 number := by
  rw [namePlaceholder, String.toList_append, Nat.toString_eq_ofList_toDigits]
  simp only [String.toList_ofList]
  rfl

/-- What stands behind the sign of a placeholder is a word. -/
theorem isWordChar_of_mem_numbered {number : Nat} {c : Char}
    (h : c ∈ 'n' :: Nat.toDigits 10 number) :
    isWordChar c = true := by
  rcases List.mem_cons.1 h with rfl | h
  · decide
  · exact isWordChar_of_mem_toDigits h

theorem namePlaceholder_inj {m n : Nat} : namePlaceholder m = namePlaceholder n ↔ m = n := by
  rw [namePlaceholder, namePlaceholder, String.append_right_inj, toString_inj]

/-- A placeholder of a name is one reference, however long its number is. -/
theorem refs_namePlaceholder (number : Nat) :
    refs '#' (namePlaceholder number) = [namePlaceholder number] := by
  have hone := refs_sign_cons (.inl rfl) (List.cons_ne_nil 'n' (Nat.toDigits 10 number))
    fun _ => isWordChar_of_mem_numbered
  rwa [← toList_namePlaceholder, String.ofList_toList] at hone

theorem colon_not_mem_namePlaceholder (number : Nat) : ':' ∉ (namePlaceholder number).toList := by
  rw [toList_namePlaceholder]
  intro hmem
  rcases List.mem_cons.1 hmem with heq | hmem
  · exact absurd heq (by decide)
  · exact absurd (isWordChar_of_mem_numbered hmem) (by decide)

theorem NameStore.empty_list : (NameStore.empty : List String) = [] := rfl

namespace Resolver

variable {r r' r'' : Resolver}

/-- A placeholder stands for the name of its number. -/
theorem get?_names_eq_some_iff (r : Resolver) (key name : String) :
    r.names.get? key = some name ↔
      ∃ number, key = namePlaceholder number ∧ r.assigned[number]? = some name :=
  Bindings.get?_ofList_zipIdx (fun _ _ => namePlaceholder_inj.1) r.assigned key name

/-- Every name of the first resolver has the same number in the second one. -/
def Extends (r r' : Resolver) : Prop := r.assigned <+: r'.assigned

theorem Extends.refl (r : Resolver) : r.Extends r := List.prefix_rfl

theorem Extends.trans (h : r.Extends r') (h' : r'.Extends r'') : r.Extends r'' :=
  List.IsPrefix.trans h h'

theorem Extends.get?_names (h : r.Extends r') {key name : String}
    (hname : r.names.get? key = some name) : r'.names.get? key = some name := by
  rw [get?_names_eq_some_iff] at hname ⊢
  obtain ⟨number, hkey, hname⟩ := hname
  obtain ⟨hlt, hget⟩ := List.getElem?_eq_some_iff.1 hname
  obtain ⟨added, happend⟩ := h
  exact ⟨number, hkey, by rw [← happend, List.getElem?_append_left hlt, hname]⟩

/-- The placeholder of a name is that of its place among the names, the next one if it is new. -/
theorem placeholder_def (r : Resolver) (name : String) :
    r.placeholder name =
      match r.assigned.idxOf? name with
      | some number => (namePlaceholder number, r)
      | none =>
        (namePlaceholder r.assigned.length, { r with assigned := r.assigned ++ [name] }) := by
  cases hknown : r.assigned.idxOf? name <;> simp [placeholder, NameStore.placeholder, hknown]

theorem placeholder_eq (r : Resolver) (name : String) :
    r.Extends (r.placeholder name).2 ∧
      ∃ number, (r.placeholder name).1 = namePlaceholder number ∧
        (r.placeholder name).2.assigned[number]? = some name := by
  rw [placeholder_def]
  cases hknown : r.assigned.idxOf? name with
  | some number =>
    obtain ⟨hlt, hname, -⟩ := List.idxOf?_eq_some_iff.1 hknown
    exact ⟨.refl r, number, rfl, List.getElem?_eq_some_iff.2 ⟨hlt, hname⟩⟩
  | none =>
    exact ⟨List.prefix_append _ _, r.assigned.length, rfl, List.getElem?_concat_length⟩

/-- What follows the name of a segment does not go on with its placeholder. -/
theorem isApart_dropWhile (s : List Char) : IsApart (s.dropWhile (· ≠ '[')) := by
  intro c hc
  have heq : c = '[' := by simpa using Text.not_of_mem_head?_dropWhile s c hc
  rw [heq]
  rfl

theorem mem_keys_names (r : Resolver) (key : String) :
    key ∈ r.names.keys ↔ ∃ number < r.assigned.length, key = namePlaceholder number := by
  rw [Bindings.mem_keys_iff]
  constructor
  · rintro ⟨name, hname⟩
    obtain ⟨number, hkey, hget⟩ := (get?_names_eq_some_iff r key name).1 hname
    obtain ⟨hlt, -⟩ := List.getElem?_eq_some_iff.1 hget
    exact ⟨number, hlt, hkey⟩
  · rintro ⟨number, hlt, hkey⟩
    have hget : r.assigned[number]? = some r.assigned[number] := List.getElem?_eq_getElem hlt
    exact ⟨_, (get?_names_eq_some_iff r key _).2 ⟨number, hkey, hget⟩⟩

/-- A placeholder is the only key that asking for it can add. -/
theorem mem_keys_placeholder (r : Resolver) (name key : String) :
    key ∈ (r.placeholder name).2.names.keys ↔
      key ∈ r.names.keys ∨ key = (r.placeholder name).1 := by
  rw [placeholder_def]
  cases hknown : r.assigned.idxOf? name with
  | some number =>
    obtain ⟨hlt, -, -⟩ := List.idxOf?_eq_some_iff.1 hknown
    have hkey : namePlaceholder number ∈ r.names.keys := (mem_keys_names r _).2 ⟨number, hlt, rfl⟩
    constructor
    · exact .inl
    · rintro (hold | rfl)
      · exact hold
      · exact hkey
  | none =>
    rw [mem_keys_names, mem_keys_names, List.length_append, List.length_singleton]
    constructor
    · rintro ⟨number, hlt, rfl⟩
      rcases Nat.lt_succ_iff_lt_or_eq.1 hlt with hlt | rfl
      · exact .inl ⟨number, hlt, rfl⟩
      · exact .inr rfl
    · rintro (⟨number, hlt, rfl⟩ | rfl)
      · exact ⟨number, Nat.lt_succ_of_lt hlt, rfl⟩
      · exact ⟨r.assigned.length, Nat.lt_succ_self _, rfl⟩

theorem placeholder_passthrough (r : Resolver) (name : String) :
    (r.placeholder name).2.passthrough = r.passthrough := by
  rw [placeholder_def]
  split <;> rfl

/-- A placeholder refers to itself only, whatever follows that goes on with no word. -/
theorem refs_placeholder (r : Resolver) (name : String) {tail : List Char} (hnone : HasNoSign tail)
    (hapart : IsApart tail) :
    refs '#' (String.ofList ((r.placeholder name).1.toList ++ tail)) = [(r.placeholder name).1] ∧
      refs ':' (String.ofList ((r.placeholder name).1.toList ++ tail)) = [] := by
  obtain ⟨-, number, htext, -⟩ := r.placeholder_eq name
  rw [← String.toList_ofList (l := tail)] at hnone hapart
  rw [htext, String.ofList_append, String.ofList_toList]
  constructor
  · rw [refs_append hapart, refs_of_not_mem (hnone.not_mem (.inl rfl)), refs_namePlaceholder]
    rfl
  · rw [refs_append hapart, refs_of_not_mem (hnone.not_mem (.inr rfl)),
      refs_of_not_mem (colon_not_mem_namePlaceholder number)]
    rfl

end Resolver

end ItemTable.Expression
