import ItemTable.ChangeLog.Settings
import ItemTable.Proofs.Number.WholeNumbers

/-!
# Settings from variables

A variable of a number is read if its text is a whole number that fits into 64 bits, whatever blanks
stand around it, and keeps its default if not (`numberOf?_eq_some_iff`). The switch is another
matter: it is on if it is unset or affirmed, and every other text turns it off. So it keeps its
default just for the texts that are meant to (`Settings.ofVariables_falls_back_iff`).
-/
namespace ItemTable.ChangeLog

open Number

/-- A text writes a whole number, with blanks around it or without them. -/
def WritesNumber (text : String) (n : Nat) : Prop :=
  ∃ before written after, text.toList = before ++ written ++ after ∧ Text.AreBlank before ∧
    Text.AreBlank after ∧ WritesWhole written n

theorem numberOf?_eq_some_iff {text : String} {n : Nat} :
    numberOf? text = some n ↔ WritesNumber text n ∧ n < 2 ^ 64 := by
  rw [numberOf?, whole?_eq_some_iff]
  refine and_congr_left fun _ => ⟨fun h => ?_, ?_⟩
  · obtain ⟨before, after, heq, hbefore, hafter⟩ := Text.exists_trim text.toList
    exact ⟨before, _, after, heq, hbefore, hafter, h⟩
  · rintro ⟨before, written, after, heq, hbefore, hafter, hwritten⟩
    rwa [heq, Text.trim_between hbefore hafter hwritten.not_blank hwritten.ne_nil]

/-- Blanks around a number, a plus sign and leading zeros do not count. -/
example : numberOf? "\u3000+007\t" = some 7 ∧ numberOf? "18446744073709551616" = none := by
  decide +kernel

/-- What a variable of a number sets: the number that its text writes if it fits into 64 bits, and
the default if there is no such text. -/
structure SetsNumber {α : Type} (given : Option String) (default : α) (set : Nat → α)
    (result : α) : Prop where
  written : ∀ text ∈ given, ∀ n, WritesNumber text n → n < 2 ^ 64 → result = set n
  unwritten : (∀ text ∈ given, ∀ n, WritesNumber text n → 2 ^ 64 ≤ n) → result = default

theorem setsNumber_elim {α : Type} (given : Option String) (default : α) (set : Nat → α) :
    SetsNumber given default set ((given.bind numberOf?).elim default set) where
  written := by
    rintro text rfl n hwrites hlt
    rw [Option.bind_some, numberOf?_eq_some_iff.2 ⟨hwrites, hlt⟩, Option.elim_some]
  unwritten := by
    intro hnone
    have hunread : given.bind numberOf? = none := by
      rw [Option.bind_eq_none_iff]
      intro text htext
      rw [Option.eq_none_iff_forall_ne_some]
      intro n hread
      obtain ⟨hwrites, hlt⟩ := numberOf?_eq_some_iff.1 hread
      exact absurd hlt (Nat.not_lt.2 (hnone text htext n hwrites))
    rw [hunread, Option.elim_none]

theorem setsNumber_getD (given : Option String) (default : Nat) :
    SetsNumber given default id ((given.bind numberOf?).getD default) := by
  have helim : (given.bind numberOf?).getD default = (given.bind numberOf?).elim default id := by
    cases given.bind numberOf? <;> rfl
  rw [helim]
  exact setsNumber_elim given default id

theorem setsNumber_or (given : Option String) :
    SetsNumber given none some ((given.bind numberOf?).or none) := by
  have helim : (given.bind numberOf?).or none = (given.bind numberOf?).elim none some := by
    cases given.bind numberOf? <;> rfl
  rw [helim]
  exact setsNumber_elim given none some

/-- What a switch should do if some texts are meant to turn it off: the affirmations turn it on, and
it keeps its default if it is unset or its text is neither. -/
structure FallsBack (denies : String → Prop) (given : Option String)
    (default result : Bool) : Prop where
  affirmed : ∀ text ∈ given, text ∈ affirmations → result = true
  unset : given = none → result = default
  unreadable : ∀ text ∈ given, text ∉ affirmations → ¬denies text → result = default

namespace Settings

variable (v : Variables)

theorem ofVariables_stopOnError_iff :
    (ofVariables v).stopOnError = true ↔ ∀ text ∈ v.stopOnError, text ∈ affirmations := by
  rw [ofVariables]
  cases v.stopOnError with
  | none => simp
  | some text => simp

theorem fallsBack_stopOnError_iff (denies : String → Prop) :
    FallsBack denies v.stopOnError ({} : Settings).stopOnError (ofVariables v).stopOnError ↔
      ∀ text ∈ v.stopOnError, text ∈ affirmations ∨ denies text := by
  constructor
  · intro h text htext
    refine or_iff_not_imp_left.2 fun hnot => ?_
    by_contra hdenies
    exact hnot ((ofVariables_stopOnError_iff v).1 (h.unreadable text htext hnot hdenies) text htext)
  · intro h
    refine ⟨fun text htext haffirms => ?_, fun hunset => ?_, fun text htext hnot hdenies => ?_⟩
    · refine (ofVariables_stopOnError_iff v).2 fun other hother => ?_
      rwa [Option.mem_unique hother htext]
    · refine (ofVariables_stopOnError_iff v).2 fun text htext => ?_
      rw [hunset] at htext
      cases htext
    · exact absurd (h text htext) (not_or.2 ⟨hnot, hdenies⟩)

/-- **Numbers fall back to their defaults, and the switch does not.** Each number is the one that
its variable writes, or its default. The switch is on unless its variable holds a text that is no
affirmation. So it keeps its default where it should just if each such text is meant to turn it
off. -/
theorem ofVariables_falls_back_iff :
    SetsNumber v.batchSize ({} : Settings).batchSize id (ofVariables v).batchSize ∧
      SetsNumber v.maxRecords ({} : Settings).maxRecords some (ofVariables v).maxRecords ∧
      SetsNumber v.pollInterval ({} : Settings).pollInterval id (ofVariables v).pollInterval ∧
      (ofVariables v).position = ({} : Settings).position ∧
      ((ofVariables v).stopOnError = true ↔ ∀ text ∈ v.stopOnError, text ∈ affirmations) ∧
      ∀ denies : String → Prop,
        FallsBack denies v.stopOnError ({} : Settings).stopOnError (ofVariables v).stopOnError ↔
          ∀ text ∈ v.stopOnError, text ∈ affirmations ∨ denies text :=
  ⟨setsNumber_getD _ _, setsNumber_or _, setsNumber_getD _ _, rfl, ofVariables_stopOnError_iff v,
    fallsBack_stopOnError_iff v⟩

/-- A text that says neither turns the switch off. -/
theorem unknownSpelling_turns_off :
    (ofVariables { stopOnError := some "maybe" }).stopOnError = false ∧
      ¬FallsBack (· ∈ ["0", "false", "no", "FALSE", "NO"]) (some "maybe")
        ({} : Settings).stopOnError
        (ofVariables { stopOnError := some "maybe" }).stopOnError := by
  refine ⟨by decide, fun h => ?_⟩
  exact absurd (h.unreadable "maybe" rfl (by decide) (by decide)) (by decide)

end Settings

end ItemTable.ChangeLog
