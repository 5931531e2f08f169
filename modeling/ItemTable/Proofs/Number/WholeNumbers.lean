import ItemTable.Proofs.Number.Grammar
import Mathlib.Data.List.Induction
import Mathlib.Data.Nat.Digits.Defs
import Mathlib.Tactic.Ring

/-!
# What digits write

A text of digits writes the number that has these digits in the decimal system
(`decimalValue_eq_ofDigits`), so that what is known of digits holds of the texts. A whole number is
written with a plus sign in front of its digits or without one, and the reader takes exactly these
texts as long as the number is small enough (`whole?_eq_some_iff`).
-/
namespace ItemTable.Number

/-- The value is the one of the digits in the decimal system. -/
theorem decimalValue_eq_ofDigits (ds : List Char) :
    decimalValue ds = Nat.ofDigits 10 (ds.map digitValue).reverse := by
  rw [decimalValue_eq_foldl]
  induction ds using List.reverseRecOn with
  | nil => rfl
  | append_singleton ds c ih =>
    rw [List.foldl_append, ih, List.map_append, List.reverse_append, List.map_singleton,
      List.reverse_singleton, List.singleton_append, Nat.ofDigits_cons, List.foldl_cons,
      List.foldl_nil]
    ring

/-- The digits of two texts, one behind the other. -/
theorem decimalValue_append (ds es : List Char) :
    decimalValue (ds ++ es) = decimalValue ds * 10 ^ es.length + decimalValue es := by
  rw [decimalValue_eq_ofDigits, decimalValue_eq_ofDigits, decimalValue_eq_ofDigits, List.map_append,
    List.reverse_append, Nat.ofDigits_append, List.length_reverse, List.length_map]
  ring

theorem digitValue_lt {c : Char} (h : c.isDigit = true) : digitValue c < 10 := by
  obtain ⟨-, hhigh⟩ := toNat_of_isDigit h
  have hzero : '0'.toNat = 48 := rfl
  rw [digitValue]
  omega

/-- So many digits write a number below that power of ten. -/
theorem decimalValue_lt {ds : List Char} (h : AreDigits ds) : decimalValue ds < 10 ^ ds.length := by
  have hdigits : ∀ d ∈ (ds.map digitValue).reverse, d < 10 := by
    intro d hd
    obtain ⟨c, hc, rfl⟩ := List.mem_map.1 (List.mem_reverse.1 hd)
    exact digitValue_lt (h c hc)
  have hlt := Nat.ofDigits_lt_base_pow_length (by decide) hdigits
  rwa [List.length_reverse, List.length_map, ← decimalValue_eq_ofDigits] at hlt

/-- The texts of a whole number: at least one digit, with a plus sign in front or without one. -/
inductive WritesWhole : List Char → Nat → Prop
  | mk {signText digits : List Char} (hsign : Numeral.WritesSign signText false) (hne : digits ≠ [])
      (hdigits : AreDigits digits) :
      WritesWhole (signText ++ digits) (Nat.ofDigits 10 (digits.map digitValue).reverse)

theorem WritesWhole.ne_nil {cs : List Char} {n : Nat} (h : WritesWhole cs n) : cs ≠ [] := by
  obtain ⟨-, hne, -⟩ := h
  exact List.append_ne_nil_of_right_ne_nil _ hne

theorem WritesWhole.not_blank {cs : List Char} {n : Nat} (h : WritesWhole cs n) :
    ∀ c ∈ cs, Text.isBlank c = false := by
  obtain ⟨hsign, -, hdigits⟩ := h
  intro c hc
  rcases List.mem_append.1 hc with hc | hc
  · cases hsign with
    | none => cases hc
    | plus =>
      rw [List.mem_singleton.1 hc]
      decide
  · have hbounds := toNat_of_isDigit (hdigits c hc)
    exact Text.isBlank_of_visible (by omega)

/-- A text is an optional plus sign and what stands behind it, which may begin with another one. -/
def SplitsPlus (signText cs : List Char) : Prop :=
  Numeral.WritesSign signText false ∧ (signText = [] → ∀ c ∈ cs.head?, c ≠ '+')

theorem exists_splitsPlus (cs : List Char) :
    ∃ signText rest, cs = signText ++ rest ∧ SplitsPlus signText rest := by
  by_cases hplus : cs.head? = some '+'
  · obtain ⟨rest, rfl⟩ := List.head?_eq_some_iff.1 hplus
    exact ⟨['+'], rest, rfl, .plus, fun h => absurd h (List.cons_ne_nil _ _)⟩
  · exact ⟨[], cs, rfl, .none, fun _ c hc heq => hplus (heq ▸ hc)⟩

theorem whole?_append {signText cs : List Char} (h : SplitsPlus signText cs) (bound : Nat) :
    whole? bound (signText ++ cs) = if cs.isEmpty || cs.any (fun c => !c.isDigit) then none
      else if decimalValue cs < bound then some (decimalValue cs) else none := by
  obtain ⟨hsign, hcs⟩ := h
  cases hsign with
  | plus => rfl
  | none =>
    cases cs with
    | nil => rfl
    | cons c rest =>
      have hc : c ≠ '+' := hcs rfl c rfl
      rw [List.nil_append, whole?]
      exact fun rest heq => hc (List.cons.inj heq).1

/-- A whole number is read just if its text writes one that is small enough. -/
theorem whole?_eq_some_iff {bound n : Nat} {cs : List Char} :
    whole? bound cs = some n ↔ WritesWhole cs n ∧ n < bound := by
  constructor
  · intro h
    obtain ⟨signText, digits, rfl, hsplit⟩ := exists_splitsPlus cs
    rw [whole?_append hsplit] at h
    split at h
    · cases h
    · next hdigits =>
      obtain ⟨hne, hdigits⟩ := isDigits_iff.1 (Bool.not_eq_true _ ▸ hdigits)
      obtain ⟨hlt, heq⟩ := Option.ite_none_right_eq_some.1 h
      cases heq
      rw [decimalValue_eq_ofDigits] at hlt ⊢
      exact ⟨.mk hsplit.1 hne hdigits, hlt⟩
  · rintro ⟨⟨hsign, hne, hdigits⟩, hlt⟩
    have hplus := Numeral.AreDigits.startsUnsigned hdigits
    rw [whole?_append ⟨hsign, fun _ c hc => (hplus c hc).2⟩, isDigits_iff.2 ⟨hne, hdigits⟩,
      if_neg Bool.false_ne_true, decimalValue_eq_ofDigits, if_pos hlt]

end ItemTable.Number
