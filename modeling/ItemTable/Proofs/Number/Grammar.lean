import ItemTable.Number.Numeral
import ItemTable.Proofs.Text.Spans

/-!
# The texts of finite numbers

A finite number is written as an optional sign, digits with an optional point among or beside them,
and an optional exponent. At least one digit stands in front of the exponent. `Numeral.Writes` says
this without the reader. The reader accepts exactly these texts as finite numbers, and it takes
every part from its place (`ofText?_eq_finite_iff`).
-/
namespace ItemTable.Number

/-- Decimal digits only, or nothing at all. -/
def AreDigits (cs : List Char) : Prop := ∀ c ∈ cs, c.isDigit = true

theorem areDigits_takeWhile (cs : List Char) : AreDigits (cs.takeWhile Char.isDigit) :=
  List.all_eq_true.1 List.all_takeWhile

/-- The test that the readers make of a text that must be digits. -/
theorem isDigits_iff {cs : List Char} :
    (cs.isEmpty || cs.any fun c => !c.isDigit) = false ↔ cs ≠ [] ∧ AreDigits cs := by
  simp only [Bool.or_eq_false_iff, List.isEmpty_eq_false_iff, List.any_eq_false, Bool.not_eq_true,
    Bool.not_eq_false']
  exact Iff.rfl

namespace Numeral

/-- The texts of a sign; true is minus. -/
inductive WritesSign : List Char → Bool → Prop
  | none : WritesSign [] false
  | plus : WritesSign ['+'] false
  | minus : WritesSign ['-'] true

/-- The texts of the part behind the whole digits: a point may stand without digits behind it. -/
inductive WritesFraction : List Char → List Char → Prop
  | none : WritesFraction [] []
  | point {digits : List Char} (hdigits : AreDigits digits) : WritesFraction ('.' :: digits) digits

theorem WritesFraction.areDigits {cs digits : List Char} (h : WritesFraction cs digits) :
    AreDigits digits := by
  cases h with
  | none => exact fun c hc => absurd hc List.not_mem_nil
  | point hdigits => exact hdigits

/-- The texts of an exponent. -/
inductive WritesExponent : List Char → Option (Bool × List Char) → Prop
  | none : WritesExponent [] none
  | marked {mark : Char} {signText digits : List Char} {negative : Bool}
      (hmark : mark = 'e' ∨ mark = 'E')
      (hsign : WritesSign signText negative) (hne : digits ≠ []) (hdigits : AreDigits digits) :
      WritesExponent (mark :: (signText ++ digits)) (some (negative, digits))

/-- The texts of a finite number without its sign. -/
inductive WritesUnsigned : List Char → List Char → List Char → Option (Bool × List Char) → Prop
  | mk {whole fractionText fraction exponentText : List Char} {exponent : Option (Bool × List Char)}
      (hwhole : AreDigits whole) (hfraction : WritesFraction fractionText fraction)
      (hexponent : WritesExponent exponentText exponent) (hne : whole ≠ [] ∨ fraction ≠ []) :
      WritesUnsigned (whole ++ (fractionText ++ exponentText)) whole fraction exponent

/-- The texts of a finite number. -/
inductive Writes : List Char → Numeral → Prop
  | mk {signText body whole fraction : List Char} {negative : Bool}
      {exponent : Option (Bool × List Char)}
      (hsign : WritesSign signText negative) (hbody : WritesUnsigned body whole fraction exponent) :
      Writes (signText ++ body) (.finite negative whole fraction exponent)

/-- No sign follows. -/
def StartsUnsigned (cs : List Char) : Prop := ∀ c ∈ cs.head?, c ≠ '-' ∧ c ≠ '+'

theorem AreDigits.startsUnsigned {ds : List Char} (h : AreDigits ds) : StartsUnsigned ds := by
  intro c hc
  have hdigit := h c (List.mem_of_mem_head? hc)
  constructor <;> rintro rfl <;> exact absurd hdigit (by decide)

/-- A sign is taken off the text that it stands in front of. -/
theorem sign_append {signText cs : List Char} {negative : Bool} (h : WritesSign signText negative)
    (hcs : StartsUnsigned cs) : sign (signText ++ cs) = (negative, cs) := by
  cases h with
  | plus | minus => rfl
  | none =>
    rw [List.nil_append]
    unfold sign
    split
    · exact absurd rfl (hcs '-' rfl).1
    · exact absurd rfl (hcs '+' rfl).2
    · rfl

/-- Every text is a sign and what stands behind it. -/
theorem exists_sign (cs : List Char) :
    ∃ signText, cs = signText ++ (sign cs).2 ∧ WritesSign signText (sign cs).1 := by
  unfold sign
  split
  · exact ⟨_, rfl, .minus⟩
  · exact ⟨_, rfl, .plus⟩
  · exact ⟨_, rfl, .none⟩

theorem exponentPart?_eq_some_iff {cs : List Char} {exponent : Option (Bool × List Char)} :
    exponentPart? cs = some exponent ↔ WritesExponent cs exponent := by
  constructor
  · intro h
    cases cs with
    | nil =>
      cases h
      exact .none
    | cons mark rest =>
      unfold exponentPart? at h
      simp only at h
      split at h
      · next hmark =>
        split at h
        · cases h
        · next hdigits =>
          obtain ⟨signText, htext, hsign⟩ := exists_sign rest
          obtain ⟨hne, hdigits⟩ := isDigits_iff.1 (Bool.not_eq_true _ ▸ hdigits)
          cases h
          have hwrites := WritesExponent.marked hmark hsign hne hdigits
          rwa [← htext] at hwrites
      · cases h
  · rintro (_ | ⟨hmark, hsign, hne, hdigits⟩)
    · rfl
    · have hread := sign_append hsign (AreDigits.startsUnsigned hdigits)
      have htest := isDigits_iff.2 ⟨hne, hdigits⟩
      simp only [exponentPart?, if_pos hmark, hread, htest, Bool.false_eq_true, if_false]

theorem WritesExponent.head {cs : List Char} {exponent : Option (Bool × List Char)}
    (h : WritesExponent cs exponent) : ∀ c ∈ cs.head?, c.isDigit = false ∧ c ≠ '.' := by
  intro c hc
  cases h with
  | none => cases hc
  | marked hmark =>
    cases hc
    obtain rfl | rfl := hmark <;> decide

theorem WritesFraction.head {cs digits exponentText : List Char}
    {exponent : Option (Bool × List Char)} (h : WritesFraction cs digits)
    (hexponent : WritesExponent exponentText exponent) :
    ∀ c ∈ (cs ++ exponentText).head?, c.isDigit = false := by
  intro c hc
  cases h with
  | none => exact (hexponent.head c hc).1
  | point =>
    cases hc
    decide

/-- The digits behind a point, if there is one, and what follows them. -/
def pointPart : List Char → List Char × List Char
  | '.' :: rest => (rest.takeWhile Char.isDigit, rest.dropWhile Char.isDigit)
  | rest => ([], rest)

theorem unsigned?_eq (negative : Bool) (cs : List Char) : unsigned? negative cs =
    if (cs.takeWhile Char.isDigit).isEmpty &&
      (pointPart (cs.dropWhile Char.isDigit)).1.isEmpty then none
    else (exponentPart? (pointPart (cs.dropWhile Char.isDigit)).2).map
      (.finite negative (cs.takeWhile Char.isDigit) (pointPart (cs.dropWhile Char.isDigit)).1) :=
  rfl

theorem pointPart_append {fractionText fraction exponentText : List Char}
    {exponent : Option (Bool × List Char)} (hfraction : WritesFraction fractionText fraction)
    (hexponent : WritesExponent exponentText exponent) :
    pointPart (fractionText ++ exponentText) = (fraction, exponentText) := by
  cases hfraction with
  | none =>
    rw [List.nil_append]
    unfold pointPart
    split
    · exact absurd rfl (hexponent.head '.' rfl).2
    · rfl
  | point hdigits =>
    obtain ⟨htake, hdrop⟩ := Text.span_append hdigits fun c hc => (hexponent.head c hc).1
    rw [List.cons_append, pointPart, htake, hdrop]

theorem exists_pointPart (cs : List Char) :
    ∃ fractionText, cs = fractionText ++ (pointPart cs).2 ∧
      WritesFraction fractionText (pointPart cs).1 := by
  by_cases hpoint : ∃ rest, cs = '.' :: rest
  · obtain ⟨rest, rfl⟩ := hpoint
    refine ⟨'.' :: rest.takeWhile Char.isDigit, ?_, .point (areDigits_takeWhile rest)⟩
    rw [pointPart, List.cons_append, List.takeWhile_append_dropWhile]
  · have hnone : pointPart cs = ([], cs) := by
      unfold pointPart
      split
      · next rest => exact absurd ⟨rest, rfl⟩ hpoint
      · rfl
    rw [hnone]
    exact ⟨[], rfl, .none⟩

theorem unsigned?_of_writes {negative : Bool} {body whole fraction : List Char}
    {exponent : Option (Bool × List Char)} (h : WritesUnsigned body whole fraction exponent) :
    unsigned? negative body = some (.finite negative whole fraction exponent) := by
  obtain ⟨hwhole, hfraction, hexponent, hne⟩ := h
  obtain ⟨htake, hdrop⟩ := Text.span_append hwhole (hfraction.head hexponent)
  have hsome : (whole.isEmpty && fraction.isEmpty) = false := by
    simpa only [Bool.and_eq_false_iff, List.isEmpty_eq_false_iff] using hne
  rw [unsigned?_eq, htake, hdrop, pointPart_append hfraction hexponent,
    if_neg (Bool.not_eq_true _ ▸ hsome), exponentPart?_eq_some_iff.2 hexponent, Option.map_some]

theorem writes_of_unsigned? {negative : Bool} {body : List Char} {x : Numeral}
    (h : unsigned? negative body = some x) : ∃ whole fraction exponent,
      x = .finite negative whole fraction exponent ∧
        WritesUnsigned body whole fraction exponent := by
  rw [unsigned?_eq] at h
  split at h
  · cases h
  · next hsome =>
    obtain ⟨exponent, hexponent, rfl⟩ := Option.map_eq_some_iff.1 h
    obtain ⟨fractionText, htext, hfraction⟩ := exists_pointPart (body.dropWhile Char.isDigit)
    rw [Bool.not_eq_true, Bool.and_eq_false_iff, List.isEmpty_eq_false_iff,
      List.isEmpty_eq_false_iff] at hsome
    have hbody := WritesUnsigned.mk (areDigits_takeWhile body) hfraction
      (exponentPart?_eq_some_iff.1 hexponent) hsome
    rw [← htext, List.takeWhile_append_dropWhile] at hbody
    exact ⟨_, _, exponent, rfl, hbody⟩

theorem WritesUnsigned.startsUnsigned {body whole fraction : List Char}
    {exponent : Option (Bool × List Char)} (h : WritesUnsigned body whole fraction exponent) :
    StartsUnsigned body := by
  obtain ⟨hwhole, hfraction, -, hne⟩ := h
  intro c hc
  cases whole with
  | cons d ds => exact AreDigits.startsUnsigned hwhole c hc
  | nil =>
    cases hfraction with
    | none => exact absurd rfl (hne.resolve_left fun h => h rfl)
    | point =>
      cases hc
      decide

theorem word?_ne_finite {negative other : Bool} {cs whole fraction : List Char}
    {exponent : Option (Bool × List Char)} :
    word? negative cs ≠ some (.finite other whole fraction exponent) := by
  unfold word?
  simp only
  intro h
  split at h
  · cases h
  · split at h <;> cases h

/-- The texts of finite numbers are read as what they write, and no other text is read as one. -/
theorem ofText?_eq_finite_iff {text : String} {negative : Bool} {whole fraction : List Char}
    {exponent : Option (Bool × List Char)} :
    ofText? text = some (.finite negative whole fraction exponent) ↔
      Writes text.toList (.finite negative whole fraction exponent) := by
  constructor
  · intro h
    obtain ⟨signText, htext, hsign⟩ := exists_sign text.toList
    replace h : (unsigned? (sign text.toList).1 (sign text.toList).2).or
        (word? (sign text.toList).1 (sign text.toList).2) =
      some (.finite negative whole fraction exponent) := h
    obtain h | ⟨-, h⟩ := Option.or_eq_some_iff.1 h
    · obtain ⟨whole', fraction', exponent', heq, hbody⟩ := writes_of_unsigned? h
      cases heq
      have hwrites := Writes.mk hsign hbody
      rwa [← htext] at hwrites
    · exact absurd h word?_ne_finite
  · generalize htext : text.toList = cs
    rintro ⟨hsign, hbody⟩
    unfold ofText?
    rw [htext, sign_append hsign hbody.startsUnsigned]
    simp only [unsigned?_of_writes hbody, Option.some_or]

end Numeral

end ItemTable.Number
