import ItemTable.Json.Reader
import ItemTable.Proofs.Number.Grammar

/-!
# A written document is read back

The reader of texts undoes the writer: `Document.ofText_toText`. The text of every part is read up
to its end whatever follows it, as long as this cannot be taken for a part of a number: `Follows`
says what may stand behind a value, and the writer puts nothing else there. The documents that the
writer shows faithfully are the `Document.Writable` ones, which are whole and whose numbers are
written as the grammar has them.
-/
namespace ItemTable.Json

/-! ## Texts -/

theorem hexDigit?_digitChar : ∀ d < 16, hexDigit? (Nat.digitChar d) = some d := by decide

/-- Four hexadecimal digits are read as the unit that they write. -/
theorem readText_hex4 (t : TextSoFar) {n : Nat} (h : n < 0x10000) (rest : List Char) :
    readText t (.unit 0 0) (hex4 n ++ rest) = readText (t.pushUnit n) .plain rest := by
  have hvalue :
      16 * (16 * (16 * (16 * 0 + n / 0x1000) + n / 0x100 % 16) + n / 0x10 % 16) + n % 16 = n := by
    omega
  simp only [hex4, List.map_cons, List.map_nil, List.cons_append, List.nil_append, readText,
    hexDigit?_digitChar _ (show n / 0x1000 < 16 by omega),
    hexDigit?_digitChar _ (show n / 0x100 % 16 < 16 by omega),
    hexDigit?_digitChar _ (show n / 0x10 % 16 < 16 by omega),
    hexDigit?_digitChar _ (show n % 16 < 16 by omega), hvalue]
  rfl

theorem readText_escapeUnit (t : TextSoFar) {n : Nat} (h : n < 0x10000) (rest : List Char) :
    readText t .plain (escapeUnit n ++ rest) = readText (t.pushUnit n) .plain rest := by
  rw [← readText_hex4 t h rest]
  rfl

/-- The code point of a character is outside the range of the halves. -/
theorem not_half (c : Char) : ¬(0xD800 ≤ c.toNat ∧ c.toNat < 0xE000) := by
  have h := c.valid
  rw [UInt32.isValidChar, Nat.isValidChar] at h
  change c.toNat < 0xD800 ∨ 0xDFFF < c.toNat ∧ c.toNat < 0x110000 at h
  omega

theorem toNat_lt (c : Char) : c.toNat < 0x110000 := by
  have h := c.valid
  rw [UInt32.isValidChar, Nat.isValidChar] at h
  change c.toNat < 0xD800 ∨ 0xDFFF < c.toNat ∧ c.toNat < 0x110000 at h
  omega

theorem pushUnit_toNat (t : TextSoFar) (c : Char) : t.pushUnit c.toNat = t.push c := by
  have h := not_half c
  rw [TextSoFar.pushUnit, if_neg (by omega), if_neg (by omega), Char.ofNat_toNat]

/-- A character beyond 16 bits is read back from its two halves. -/
theorem pushUnit_pair {t : TextSoFar} (h : t.half = none) {c : Char} (hlarge : 0x10000 ≤ c.toNat) :
    ((t.pushUnit (0xD800 + (c.toNat - 0x10000) / 0x400)).pushUnit
      (0xDC00 + (c.toNat - 0x10000) % 0x400)) = t.push c := by
  have hsize := toNat_lt c
  have hvalue : 0x10000 + (0xD800 + (c.toNat - 0x10000) / 0x400 - 0xD800) * 0x400 +
      (0xDC00 + (c.toNat - 0x10000) % 0x400 - 0xDC00) = c.toNat := by
    omega
  have hfirst : t.pushUnit (0xD800 + (c.toNat - 0x10000) / 0x400) =
      ⟨t.reversed, some (0xD800 + (c.toNat - 0x10000) / 0x400), t.halved || t.half.isSome⟩ :=
    if_pos (by omega)
  rw [hfirst, TextSoFar.pushUnit, if_neg (by omega), if_pos (by omega)]
  simp only [hvalue, Char.ofNat_toNat, TextSoFar.push, h, Option.isSome_none, Bool.or_false]

theorem readText_escapeChar {t : TextSoFar} (h : t.half = none) (c : Char) (rest : List Char) :
    readText t .plain (escapeChar c ++ rest) = readText (t.push c) .plain rest := by
  unfold escapeChar
  split
  · next hquote => obtain rfl | rfl := hquote <;> rfl
  next hquote =>
  rw [not_or] at hquote
  split
  · next heq => subst heq; rfl
  split
  · next heq => subst heq; rfl
  split
  · next heq => subst heq; rfl
  split
  · next hprintable =>
    rw [List.singleton_append, readText, if_neg hquote.1, if_neg hquote.2, if_neg (by omega)]
  split
  · next hsmall => rw [readText_escapeUnit t hsmall, pushUnit_toNat]
  · next hlarge =>
    have hsize := toNat_lt c
    rw [List.append_assoc, readText_escapeUnit _ (by omega), readText_escapeUnit _ (by omega),
      pushUnit_pair h (by omega)]

theorem readText_escaped (cs : List Char) {t : TextSoFar} (h : t.half = none)
    (hwhole : t.halved = false) (rest : List Char) :
    readText t .plain (cs.flatMap escapeChar ++ '"' :: rest) =
      some (some (String.ofList (t.reversed.reverse ++ cs)), rest) := by
  induction cs generalizing t with
  | nil =>
    rw [List.flatMap_nil, List.nil_append, readText, if_pos rfl, TextSoFar.result, h, hwhole,
      List.append_nil]
    rfl
  | cons c cs ih =>
    rw [List.flatMap_cons, List.append_assoc, readText_escapeChar h, ih rfl, TextSoFar.push,
      List.reverse_cons, List.append_assoc, List.singleton_append]
    rw [TextSoFar.push, h, hwhole]
    rfl

/-- A written text is read up to its closing quotation mark. -/
theorem text?_escaped (s : String) (rest : List Char) :
    text? (s.toList.flatMap escapeChar ++ '"' :: rest) = some (some s, rest) := by
  rw [text?, readText_escaped _ rfl rfl, List.reverse_nil, List.nil_append, String.ofList_toList]

/-! ## Numbers -/

/-- What may stand behind a value: the end of the text, or what goes on in a list or an object. -/
def Follows (rest : List Char) : Prop := ∀ c ∈ rest.head?, c = ',' ∨ c = ']' ∨ c = '\x7d'

namespace Literal

/-- A literal as the grammar of numbers has it: no needless zero in front, and digits where digits
belong. -/
structure Grammatical (n : Literal) : Prop where
  whole : n.whole = ['0'] ∨ ∃ c ∈ n.whole.head?, c ≠ '0'
  wholeDigits : ∀ c ∈ n.whole, c.isDigit
  fractionDigits : ∀ c ∈ n.fraction, c.isDigit
  exponentDigits : ∀ e ∈ n.exponent, e.2 ≠ [] ∧ ∀ c ∈ e.2, c.isDigit

def signText (negative : Bool) : List Char := if negative then ['-'] else []

def fractionText (digits : List Char) : List Char := if digits.isEmpty then [] else '.' :: digits

def exponentText : Option (Bool × List Char) → List Char
  | none => []
  | some (negative, digits) => 'e' :: (signText negative ++ digits)

theorem Grammatical.whole_ne_nil {n : Literal} (h : n.Grammatical) : n.whole ≠ [] := by
  intro hnil
  obtain hzero | ⟨c, hc, -⟩ := h.whole
  · rw [hnil] at hzero
    cases hzero
  · rw [hnil] at hc
    cases hc

theorem render_eq (n : Literal) :
    n.render = signText n.negative ++
      (n.whole ++ (fractionText n.fraction ++ exponentText n.exponent)) := by
  obtain ⟨negative, whole, fraction, exponent⟩ := n
  rw [render, List.append_assoc, List.append_assoc]
  cases exponent <;> rfl

end Literal

section Digits

variable {rest : List Char}

theorem Follows.head_exponent (h : Follows rest) (e : Option (Bool × List Char)) :
    ∀ c ∈ (Literal.exponentText e ++ rest).head?, c.isDigit = false ∧ c ≠ '.' := by
  intro c hc
  cases e with
  | none => obtain rfl | rfl | rfl := h c hc <;> decide
  | some e =>
    cases hc
    decide

theorem Follows.head_fraction (h : Follows rest) (ds : List Char) (e : Option (Bool × List Char)) :
    ∀ c ∈ (Literal.fractionText ds ++ (Literal.exponentText e ++ rest)).head?,
      c.isDigit = false := by
  intro c hc
  cases ds with
  | nil => exact (h.head_exponent e c hc).1
  | cons d ds =>
    cases hc
    rfl

theorem exponentPart?_written (h : Follows rest) {e : Option (Bool × List Char)}
    (he : ∀ p ∈ e, p.2 ≠ [] ∧ ∀ c ∈ p.2, c.isDigit) :
    exponentPart? (Literal.exponentText e ++ rest) = some (e, rest) := by
  cases e with
  | none =>
    cases rest with
    | nil => rfl
    | cons c rest => obtain rfl | rfl | rfl := h c rfl <;> rfl
  | some p =>
    obtain ⟨negative, ds⟩ := p
    obtain ⟨hne, hds⟩ := he _ rfl
    have hrest : ∀ c ∈ rest.head?, c.isDigit = false := fun c hc => (h.head_exponent none c hc).1
    obtain ⟨htake, hdrop⟩ := Text.span_append hds hrest
    have hempty : ds.isEmpty = false := List.isEmpty_eq_false_iff.2 hne
    cases negative with
    | true =>
      simp only [Literal.exponentText, Literal.signText, if_true, List.cons_append, List.nil_append,
        exponentPart?, true_or, htake, hdrop, hempty, Bool.false_eq_true, if_false]
    | false =>
      obtain ⟨d, ds', rfl⟩ := List.exists_cons_of_ne_nil hne
      have hd : d.isDigit := hds d List.mem_cons_self
      have hsign : d ≠ '-' ∧ d ≠ '+' := by
        constructor <;> rintro rfl <;> exact absurd hd (by decide)
      simp only [Literal.exponentText, Literal.signText, Bool.false_eq_true, if_false,
        List.nil_append, List.cons_append, exponentPart?, true_or, if_true]
      split
      · next heq => exact absurd (List.cons.inj heq).1 hsign.1
      · next heq => exact absurd (List.cons.inj heq).1 hsign.2
      · rw [← List.cons_append, htake, hdrop]
        rfl

theorem fractionPart?_written (h : Follows rest) {ds : List Char} (hds : ∀ c ∈ ds, c.isDigit)
    (e : Option (Bool × List Char)) :
    fractionPart? (Literal.fractionText ds ++ (Literal.exponentText e ++ rest)) =
      some (ds, Literal.exponentText e ++ rest) := by
  have hhead := h.head_exponent e
  cases ds with
  | nil =>
    simp only [Literal.fractionText, List.isEmpty_nil, if_true, List.nil_append]
    cases hrest : Literal.exponentText e ++ rest with
    | nil => rfl
    | cons c later =>
      rw [hrest] at hhead
      have hc := (hhead c rfl).2
      unfold fractionPart?
      split
      · next heq => exact absurd (List.cons.inj heq).1 hc
      · rfl
  | cons d ds =>
    obtain ⟨htake, hdrop⟩ := Text.span_append hds fun c hc => (hhead c hc).1
    rw [Literal.fractionText, List.isEmpty_cons, if_neg Bool.false_ne_true, List.cons_append,
      fractionPart?]
    simp only [htake, hdrop, List.isEmpty_cons, Bool.false_eq_true, if_false]

theorem wholePart?_written {ds : List Char} (hzero : ds = ['0'] ∨ ∃ c ∈ ds.head?, c ≠ '0')
    (hds : ∀ c ∈ ds, c.isDigit) (hrest : ∀ c ∈ rest.head?, c.isDigit = false) :
    wholePart? (ds ++ rest) = some (ds, rest) := by
  obtain rfl | ⟨d, hd, hne⟩ := hzero
  · have hnone : (rest.head?.map Char.isDigit).getD false = false := by
      cases rest with
      | nil => rfl
      | cons c rest => exact hrest c rfl
    rw [List.singleton_append, wholePart?, hnone]
    rfl
  · obtain ⟨ds, rfl⟩ : ∃ ds', ds = d :: ds' := by
      cases ds with
      | nil => cases hd
      | cons c ds =>
        cases hd
        exact ⟨ds, rfl⟩
    obtain ⟨htake, hdrop⟩ := Text.span_append hds hrest
    rw [List.cons_append] at htake hdrop ⊢
    unfold wholePart?
    split
    · next heq => exact absurd (List.cons.inj heq).1 hne
    · next heq =>
      cases heq
      rw [if_pos (hds d List.mem_cons_self), htake, hdrop]
    · next heq => cases heq

/-- A number is read up to what stands behind it. -/
theorem number?_render {n : Literal} (h : n.Grammatical) (hrest : Follows rest) :
    number? (n.render ++ rest) = some (n, rest) := by
  have hwhole :=
    wholePart?_written h.whole h.wholeDigits (hrest.head_fraction n.fraction n.exponent)
  have hfraction := fractionPart?_written hrest h.fractionDigits n.exponent
  have hexponent := exponentPart?_written hrest h.exponentDigits
  rw [n.render_eq, List.append_assoc, List.append_assoc, List.append_assoc]
  obtain ⟨negative, whole, fraction, exponent⟩ := n
  dsimp only at hwhole hfraction hexponent
  cases negative with
  | true =>
    simp only [Literal.signText, if_true, List.cons_append, List.nil_append, number?, hwhole,
      hfraction, hexponent, Option.bind_eq_bind, Option.bind_some, Option.pure_def]
  | false =>
    obtain ⟨d, ds, rfl⟩ := List.exists_cons_of_ne_nil h.whole_ne_nil
    have hd : d ≠ '-' := by
      rintro rfl
      exact absurd (h.wholeDigits _ List.mem_cons_self) (by decide)
    simp only [Literal.signText, Bool.false_eq_true, if_false, List.nil_append, number?]
    split
    · next heq => exact absurd (List.cons.inj heq).1 hd
    · simp only [hwhole, hfraction, hexponent, Option.bind_eq_bind, Option.bind_some,
        Option.pure_def]

end Digits

/-- What a number starts with. -/
def StartsNumber (c : Char) : Prop := c = '-' ∨ c.isDigit = true

instance (c : Char) : Decidable (StartsNumber c) := inferInstanceAs (Decidable (_ ∨ _))

theorem StartsNumber.ne {c other : Char} (h : StartsNumber c) (hother : ¬StartsNumber other) :
    c ≠ other := by
  rintro rfl
  exact hother h

theorem isSpace_of_startsNumber {c : Char} (h : StartsNumber c) : isSpace c = false := by
  simp only [isSpace, Bool.or_eq_false_iff, decide_eq_false_iff_not]
  exact ⟨⟨⟨h.ne (by decide), h.ne (by decide)⟩, h.ne (by decide)⟩, h.ne (by decide)⟩

theorem Literal.Grammatical.exists_render {n : Literal} (h : n.Grammatical) :
    ∃ c cs, n.render = c :: cs ∧ StartsNumber c := by
  rw [n.render_eq]
  obtain ⟨negative, whole, fraction, exponent⟩ := n
  cases negative with
  | true => exact ⟨'-', _, rfl, .inl rfl⟩
  | false =>
    obtain ⟨d, ds, rfl⟩ := List.exists_cons_of_ne_nil h.whole_ne_nil
    exact ⟨d, _, rfl, .inr (h.wholeDigits d List.mem_cons_self)⟩

theorem digitChar_ne_zero : ∀ n < 10, 0 < n → Nat.digitChar n ≠ '0' := by decide

/-- The digits of a number other than zero start with another digit than zero. -/
theorem head?_toDigits {n : Nat} (h : 0 < n) : ∃ c ∈ (Nat.toDigits 10 n).head?, c ≠ '0' := by
  induction n using Nat.strong_induction_on with
  | _ n ih =>
    by_cases hsmall : n < 10
    · refine ⟨Nat.digitChar n, ?_, digitChar_ne_zero n hsmall h⟩
      rw [Nat.toDigits_of_lt_base hsmall]
      rfl
    · obtain ⟨c, hc, hne⟩ := ih (n / 10) (by omega) (by omega)
      refine ⟨c, ?_, hne⟩
      rw [Nat.toDigits_of_base_le (by decide) (by omega), List.head?_append, hc]
      rfl

/-- A whole number is written as the grammar has it. -/
theorem Literal.grammatical_toDigits (negative : Bool) (n : Nat) :
    Grammatical { negative, whole := Nat.toDigits 10 n } where
  whole := by
    obtain rfl | hpos := Nat.eq_zero_or_pos n
    · exact .inl rfl
    · exact .inr (head?_toDigits hpos)
  wholeDigits _ hc := Nat.isDigit_of_mem_toDigits (by decide) (by decide) hc
  fractionDigits := List.forall_mem_nil _
  exponentDigits _ he := by cases he

/-! ## Documents -/

theorem skipSpace_cons {c : Char} (h : isSpace c = false) (cs : List Char) :
    skipSpace (c :: cs) = c :: cs := by
  rw [skipSpace, List.dropWhile_cons_of_neg (Bool.not_eq_true _ ▸ h)]

/-- What starts as a number is read as one. -/
theorem readValue_number (fuel : Nat) {cs rest : List Char} {n : Literal}
    (hcs : ∃ c ∈ cs.head?, StartsNumber c) (h : number? cs = some (n, rest)) :
    readValue (fuel + 1) cs = (.number n, some rest) := by
  obtain ⟨c, hc, hstart⟩ := hcs
  cases cs with
  | nil => cases hc
  | cons c cs =>
    cases hc
    rw [readValue, skipSpace_cons (isSpace_of_startsNumber hstart)]
    split
    case h_7 => rw [h]
    all_goals next heq => exact absurd (List.cons.inj heq).1 (hstart.ne (by decide))

namespace Document

mutual

/-- What the writer shows as it is. -/
def Writable : Document → Prop
  | number n => n.Grammatical
  | list ds closed => closed = true ∧ WritableItems ds
  | object ms closed => closed = true ∧ WritableMembers ms
  | halved | broken => False
  | null | boolean _ | text _ => True

def WritableItems : List Document → Prop
  | [] => True
  | d :: ds => Writable d ∧ WritableItems ds

def WritableMembers : List (Label × Document) → Prop
  | [] => True
  | (label, d) :: ms => (∃ name, label = some name) ∧ Writable d ∧ WritableMembers ms

end

theorem writableItems_iff {ds : List Document} : WritableItems ds ↔ ∀ d ∈ ds, d.Writable := by
  induction ds with
  | nil => simp [WritableItems]
  | cons d ds ih => rw [WritableItems, ih, List.forall_mem_cons]

theorem writableMembers_iff {ms : List (Label × Document)} :
    WritableMembers ms ↔ ∀ m ∈ ms, (∃ name, m.1 = some name) ∧ m.2.Writable := by
  induction ms with
  | nil => simp [WritableMembers]
  | cons m ms ih => rw [WritableMembers, ih, List.forall_mem_cons, and_assoc]

theorem writable_list {ds : List Document} (h : ∀ d ∈ ds, d.Writable) : (list ds true).Writable :=
  ⟨rfl, writableItems_iff.2 h⟩

theorem writable_object {ms : List (Label × Document)}
    (h : ∀ m ∈ ms, (∃ name, m.1 = some name) ∧ m.2.Writable) : (object ms true).Writable :=
  ⟨rfl, writableMembers_iff.2 h⟩

theorem writable_ofInt (n : Int) : (ofInt n).Writable := Literal.grammatical_toDigits _ _

mutual

theorem Writable.whole : ∀ {d : Document}, d.Writable → d.whole = true
  | list ds _, h => by
    obtain ⟨rfl, hds⟩ := h
    rw [Document.whole, WritableItems.whole hds, Bool.and_self]
  | object ms _, h => by
    obtain ⟨rfl, hms⟩ := h
    rw [Document.whole, WritableMembers.whole hms, Bool.and_self]
  | null, _ | boolean _, _ | number _, _ | text _, _ => rfl

theorem WritableItems.whole : ∀ {ds : List Document}, WritableItems ds → wholeItems ds = true
  | [], _ => rfl
  | _ :: _, h => by rw [wholeItems, Writable.whole h.1, WritableItems.whole h.2, Bool.and_self]

theorem WritableMembers.whole : ∀ {ms : List (Label × Document)},
    WritableMembers ms → wholeMembers ms = true
  | [], _ => rfl
  | (_, _) :: _, h => by
    rw [wholeMembers, Writable.whole h.2.1, WritableMembers.whole h.2.2, Bool.and_self]

end

/-- A value starts with neither white space nor a closing bracket. -/
theorem Writable.exists_render {d : Document} (h : d.Writable) :
    ∃ c cs, d.render = c :: cs ∧ isSpace c = false ∧ c ≠ ']' := by
  cases d with
  | null => exact ⟨'n', _, rfl, by decide⟩
  | boolean b => cases b <;> exact ⟨_, _, rfl, by decide⟩
  | number n =>
    obtain ⟨c, cs, heq, hc⟩ := Literal.Grammatical.exists_render h
    exact ⟨c, cs, heq, isSpace_of_startsNumber hc, hc.ne (by decide)⟩
  | text s => exact ⟨'"', _, rfl, by decide⟩
  | list ds closed => exact ⟨'[', _, rfl, by decide⟩
  | object ms closed => exact ⟨'\x7b', _, rfl, by decide⟩
  | halved | broken => exact absurd h id

/-- What is written of the parts of a list starts as its first part does. -/
theorem Writable.exists_renderItems {d : Document} (h : d.Writable) (ds : List Document)
    (rest : List Char) :
    ∃ c cs, renderItems (d :: ds) ++ rest = c :: cs ∧ isSpace c = false ∧ c ≠ ']' := by
  obtain ⟨c, cs, heq, hc⟩ := h.exists_render
  cases ds with
  | nil => exact ⟨c, cs ++ rest, by rw [renderItems, heq, List.cons_append], hc⟩
  | cons e es => exact ⟨c, _, by rw [renderItems, heq, List.cons_append, List.cons_append], hc⟩

theorem exists_renderMembers (m : Label × Document) (ms : List (Label × Document))
    (rest : List Char) :
    ∃ cs, renderMembers (m :: ms) ++ rest = '"' :: cs := by
  cases ms with
  | nil => exact ⟨_, rfl⟩
  | cons n ns => exact ⟨_, rfl⟩

end Document

open Document

theorem readValue_list {fuel : Nat} {c : Char} {cs rest : List Char} {items : List Document}
    (hspace : isSpace c = false) (hend : c ≠ ']')
    (h : readItems fuel (c :: cs) = (items, some rest)) :
    readValue (fuel + 1) ('[' :: c :: cs) = (.list items true, some rest) := by
  rw [readValue, skipSpace_cons (by decide)]
  simp only [skipSpace_cons hspace]
  split
  · next heq => exact absurd (List.cons.inj heq).1 hend
  · simp only [h, Option.isSome_some]

theorem readValue_object {fuel : Nat} {cs rest : List Char} {members : List (Label × Document)}
    (h : readMembers fuel ('"' :: cs) = (members, some rest)) :
    readValue (fuel + 1) ('\x7b' :: '"' :: cs) = (.object members true, some rest) := by
  have hbrace : readValue (fuel + 1) ('\x7b' :: '"' :: cs) =
      (.object (readMembers fuel ('"' :: cs)).1 (readMembers fuel ('"' :: cs)).2.isSome,
        (readMembers fuel ('"' :: cs)).2) := rfl
  rw [hbrace, h]
  rfl

theorem renderText_append (name : String) (rest : List Char) :
    renderText name ++ rest = '"' :: (name.toList.flatMap escapeChar ++ '"' :: rest) := by
  rw [renderText, List.cons_append, List.append_assoc, List.singleton_append]

/-- A member behind which another one stands. -/
theorem readMembers_next {fuel : Nat} {name : String} {cs rest : List Char} {d : Document}
    (h : readValue fuel cs = (d, some (',' :: rest))) :
    readMembers (fuel + 1) (renderText name ++ ':' :: cs) =
      ((some name, d) :: (readMembers fuel rest).1, (readMembers fuel rest).2) := by
  rw [renderText_append, readMembers, skipSpace_cons (by decide)]
  simp only [text?_escaped, skipSpace_cons (show isSpace ':' = false by decide), h,
    skipSpace_cons (show isSpace ',' = false by decide)]

/-- The last member of an object. -/
theorem readMembers_last {fuel : Nat} {name : String} {cs rest : List Char} {d : Document}
    (h : readValue fuel cs = (d, some ('\x7d' :: rest))) :
    readMembers (fuel + 1) (renderText name ++ ':' :: cs) = ([(some name, d)], some rest) := by
  rw [renderText_append, readMembers, skipSpace_cons (by decide)]
  simp only [text?_escaped, skipSpace_cons (show isSpace ':' = false by decide), h,
    skipSpace_cons (show isSpace '\x7d' = false by decide)]

theorem readItems_next {fuel : Nat} {cs rest : List Char} {d : Document}
    (h : readValue fuel cs = (d, some (',' :: rest))) :
    readItems (fuel + 1) cs = (d :: (readItems fuel rest).1, (readItems fuel rest).2) := by
  rw [readItems]
  simp only [h, skipSpace_cons (show isSpace ',' = false by decide)]

theorem readItems_last {fuel : Nat} {cs rest : List Char} {d : Document}
    (h : readValue fuel cs = (d, some (']' :: rest))) :
    readItems (fuel + 1) cs = ([d], some rest) := by
  rw [readItems]
  simp only [h, skipSpace_cons (show isSpace ']' = false by decide)]

theorem follows_comma (rest : List Char) : Follows (',' :: rest) :=
  fun _ hc => .inl (Option.some.inj hc).symm

theorem follows_bracket (rest : List Char) : Follows (']' :: rest) :=
  fun _ hc => .inr (.inl (Option.some.inj hc).symm)

theorem follows_brace (rest : List Char) : Follows ('\x7d' :: rest) :=
  fun _ hc => .inr (.inr (Option.some.inj hc).symm)

mutual

/-- A written value is read up to what stands behind it. Two calls of the reader for each character
are enough. -/
theorem readValue_render : ∀ (d : Document) (fuel : Nat) (rest : List Char),
    d.Writable → Follows rest → 2 * d.render.length < fuel →
    readValue fuel (d.render ++ rest) = (d, some rest)
  | null, fuel + 1, rest, _, _, _ => rfl
  | boolean true, fuel + 1, rest, _, _, _ => rfl
  | boolean false, fuel + 1, rest, _, _, _ => rfl
  | number n, fuel + 1, rest, h, hrest, _ => by
    obtain ⟨c, cs, heq, hc⟩ := Literal.Grammatical.exists_render h
    refine readValue_number fuel ⟨c, ?_, hc⟩ (number?_render h hrest)
    rw [render, heq]
    rfl
  | text s, fuel + 1, rest, _, _, _ => by
    rw [render, renderText_append, readValue, skipSpace_cons (by decide)]
    simp only [text?_escaped]
  | list [] _, fuel + 1, rest, h, _, _ => by
    obtain ⟨rfl, -⟩ := h
    rfl
  | list (d :: ds) _, fuel + 1, rest, h, hrest, hfuel => by
    obtain ⟨rfl, h⟩ := h
    obtain ⟨c, cs, heq, hspace, hend⟩ := h.1.exists_renderItems ds (']' :: rest)
    have hitems := readItems_render (d :: ds) fuel rest h (List.cons_ne_nil _ _) (by
      simp only [render, List.length_cons, List.length_append, List.length_nil] at hfuel
      omega)
    rw [render, List.cons_append, List.append_assoc, List.singleton_append, heq]
    rw [heq] at hitems
    exact readValue_list hspace hend hitems
  | object [] _, fuel + 1, rest, h, _, _ => by
    obtain ⟨rfl, -⟩ := h
    rfl
  | object (m :: ms) _, fuel + 1, rest, h, hrest, hfuel => by
    obtain ⟨rfl, h⟩ := h
    obtain ⟨cs, heq⟩ := exists_renderMembers m ms ('\x7d' :: rest)
    have hmembers := readMembers_render (m :: ms) fuel rest h (List.cons_ne_nil _ _) (by
      simp only [render, List.length_cons, List.length_append, List.length_nil] at hfuel
      omega)
    rw [render, List.cons_append, List.append_assoc, List.singleton_append, heq]
    rw [heq] at hmembers
    exact readValue_object hmembers
  | halved, _, _, h, _, _ | broken, _, _, h, _, _ => absurd h id

theorem readItems_render : ∀ (ds : List Document) (fuel : Nat) (rest : List Char),
    WritableItems ds → ds ≠ [] → 2 * (renderItems ds).length + 1 < fuel →
    readItems fuel (renderItems ds ++ ']' :: rest) = (ds, some rest)
  | [d], fuel + 1, rest, h, _, hfuel => by
    rw [renderItems] at hfuel ⊢
    exact readItems_last (readValue_render d fuel (']' :: rest) h.1 (follows_bracket rest)
      (by omega))
  | d :: e :: ds, fuel + 1, rest, h, _, hfuel => by
    rw [renderItems, List.length_append, List.length_cons] at hfuel
    have hd :=
      readValue_render d fuel (',' :: (renderItems (e :: ds) ++ ']' :: rest)) h.1 (follows_comma _)
      (by omega)
    have hds := readItems_render (e :: ds) fuel rest h.2 (List.cons_ne_nil _ _) (by omega)
    rw [renderItems, List.append_assoc, List.cons_append, readItems_next hd, hds]

theorem readMembers_render : ∀ (ms : List (Label × Document)) (fuel : Nat) (rest : List Char),
    WritableMembers ms → ms ≠ [] → 2 * (renderMembers ms).length + 1 < fuel →
    readMembers fuel (renderMembers ms ++ '\x7d' :: rest) = (ms, some rest)
  | [(label, d)], fuel + 1, rest, h, _, hfuel => by
    obtain ⟨⟨name, rfl⟩, h, -⟩ := h
    rw [renderMembers, List.length_append, List.length_cons] at hfuel
    rw [renderMembers, List.append_assoc, List.cons_append]
    exact readMembers_last (readValue_render d fuel ('\x7d' :: rest) h (follows_brace rest)
      (by omega))
  | (label, d) :: m :: ms, fuel + 1, rest, h, _, hfuel => by
    obtain ⟨⟨name, rfl⟩, h, hms⟩ := h
    rw [renderMembers, List.length_append, List.length_cons, List.length_append,
      List.length_cons] at hfuel
    have hd := readValue_render d fuel (',' :: (renderMembers (m :: ms) ++ '\x7d' :: rest)) h
      (follows_comma _) (by omega)
    have hms := readMembers_render (m :: ms) fuel rest hms (List.cons_ne_nil _ _) (by omega)
    rw [renderMembers, List.append_assoc, List.cons_append, List.append_assoc, List.cons_append]
    rw [Option.getD_some, readMembers_next hd, hms]

end

/-- A document that is written is the one that its text writes. -/
theorem Document.ofText_toText {d : Document} (h : d.Writable) :
    Document.ofText d.toText = some d := by
  have hread : Document.read d.toText = (d, some []) := by
    have hend : Follows [] := fun _ hc => by cases hc
    have hvalue := readValue_render d (2 * d.render.length + 2) [] h hend (by omega)
    rw [List.append_nil] at hvalue
    rw [Document.read, Document.toText, String.toList_ofList, hvalue]
  rw [Document.ofText, hread]
  simp only [skipSpace, List.dropWhile_nil, List.isEmpty_nil, h.whole, Bool.and_self, if_true]

end ItemTable.Json
