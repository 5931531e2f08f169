import ItemTable.Expression.Token
import ItemTable.Proofs.Text.Spans
import ItemTable.Text.Separated

/-!
# References in expression texts

A reference is a sign with a word behind it. Neither sign occurs inside another token, so that the
references of a text can be read off without its other tokens (`nameRefs_eq`, `valueRefs_eq`), and
those of a text put together from parts are those of the parts: `refs_append`, `refs_joinWith`.
-/
namespace ItemTable.Expression

/-- The kind of the tokens that start with a sign. -/
def refKind : Char → TokenKind
  | '#' => .nameRef
  | ':' => .valueRef
  | _ => .other

/-- The two signs of references. -/
abbrev IsSign (sign : Char) : Prop := sign = '#' ∨ sign = ':'

/-- The words that stand behind a sign, with the sign. -/
def signed (sign : Char) : List Char → List (List Char)
  | [] => []
  | c :: rest =>
    if c = sign ∧ rest.takeWhile isWordChar ≠ [] then
      (c :: rest.takeWhile isWordChar) :: signed sign rest
    else signed sign rest

/-- The references with a sign in a text. -/
def refs (sign : Char) (text : String) : List String :=
  (signed sign text.toList).map String.ofList

theorem signed_append_of_not_mem {sign : Char} {cs : List Char} (h : sign ∉ cs) (ds : List Char) :
    signed sign (cs ++ ds) = signed sign ds := by
  induction cs with
  | nil => rfl
  | cons c rest ih =>
    rw [List.mem_cons, not_or] at h
    have hne : ¬(c = sign ∧ (rest ++ ds).takeWhile isWordChar ≠ []) := fun hc => h.1 hc.1.symm
    rw [List.cons_append, signed, if_neg hne]
    exact ih h.2

theorem signed_of_not_mem {sign : Char} {cs : List Char} (h : sign ∉ cs) : signed sign cs = [] := by
  have happend := signed_append_of_not_mem h []
  rwa [List.append_nil] at happend

/-- A text that does not go on with the word in front of it. -/
def IsApart (cs : List Char) : Prop := ∀ c ∈ cs.head?, isWordChar c = false

instance (cs : List Char) : Decidable (IsApart cs) :=
  decidable_of_iff ((cs.head?.all fun c => !isWordChar c) = true) (by
    unfold IsApart
    cases cs with
    | nil => simp
    | cons c rest => simp)

theorem takeWhile_append_of_isApart {ds : List Char} (h : IsApart ds) (cs : List Char) :
    (cs ++ ds).takeWhile isWordChar = cs.takeWhile isWordChar := by
  induction cs with
  | nil =>
    cases ds with
    | nil => rfl
    | cons d ds =>
      have hd : isWordChar d = false := h d rfl
      simp [hd]
  | cons c rest ih => rw [List.cons_append, List.takeWhile_cons, List.takeWhile_cons, ih]

theorem signed_append {ds : List Char} (h : IsApart ds) (sign : Char) (cs : List Char) :
    signed sign (cs ++ ds) = signed sign cs ++ signed sign ds := by
  induction cs with
  | nil => rfl
  | cons c rest ih =>
    rw [List.cons_append, signed, signed, takeWhile_append_of_isApart h, ih]
    split
    · rfl
    · rfl

/-- A text without references. -/
def HasNoSign (cs : List Char) : Prop := ∀ c ∈ cs, ¬IsSign c

instance (cs : List Char) : Decidable (HasNoSign cs) :=
  decidable_of_iff ((cs.all fun c => !decide (IsSign c)) = true) (by
    rw [List.all_eq_true]
    simp [HasNoSign])

theorem HasNoSign.not_mem {cs : List Char} (h : HasNoSign cs) {sign : Char} (hsign : IsSign sign) :
    sign ∉ cs := fun hmem => h sign hmem hsign

theorem isWordChar_sign {sign : Char} (hsign : IsSign sign) : isWordChar sign = false := by
  rcases hsign with rfl | rfl <;> decide

theorem isBlank_sign {sign : Char} (hsign : IsSign sign) : Text.isBlank sign = false := by
  rcases hsign with rfl | rfl <;> decide

theorem hasNoSign_of_isWord {cs : List Char} (h : ∀ c ∈ cs, isWordChar c = true) :
    HasNoSign cs := by
  intro c hc hsign
  have hword := h c hc
  rw [isWordChar_sign hsign] at hword
  cases hword

theorem signed_cons_of_ne {sign c : Char} (h : c ≠ sign) (rest : List Char) :
    signed sign (c :: rest) = signed sign rest := by
  rw [signed, if_neg fun hc => h hc.1]

/-- Dropping characters of a class without the sign loses no reference. -/
theorem signed_dropWhile {sign : Char} {p : Char → Bool} (h : p sign = false) (cs : List Char) :
    signed sign (cs.dropWhile p) = signed sign cs := by
  induction cs with
  | nil => rfl
  | cons c rest ih =>
    rw [List.dropWhile_cons]
    split
    · next hp =>
      have hne : c ≠ sign := fun heq => by rw [heq, h] at hp; cases hp
      rw [ih, signed_cons_of_ne hne]
    · rfl

theorem firstToken_of_lone_sign {c : Char} (hc : IsSign c) {rest : List Char}
    (h : rest.takeWhile isWordChar = []) : firstToken c rest = (⟨.other, [c]⟩, rest) := by
  simp only [firstToken]
  rw [if_pos hc, h]
  rfl

theorem firstToken_of_ref {c : Char} (hc : IsSign c) {rest : List Char}
    (h : rest.takeWhile isWordChar ≠ []) :
    firstToken c rest =
      (⟨refKind c, c :: rest.takeWhile isWordChar⟩, rest.dropWhile isWordChar) := by
  simp only [firstToken]
  rw [if_pos hc, if_neg (by simpa using h)]
  rcases hc with rfl | rfl
  · rfl
  · rfl

/-- A token that starts with no sign is no reference, and ends where a class of characters does. -/
theorem firstToken_of_not_sign {c : Char} (hc : ¬IsSign c) (rest : List Char) :
    (firstToken c rest).1.kind ≠ .nameRef ∧ (firstToken c rest).1.kind ≠ .valueRef ∧
      ((firstToken c rest).2 = rest ∨ (firstToken c rest).2 = rest.dropWhile isWordChar ∨
        (firstToken c rest).2 = rest.dropWhile Text.isBlank) := by
  simp only [firstToken]
  rw [if_neg hc]
  split
  · refine ⟨?_, ?_, .inr (.inl rfl)⟩
    · split <;> simp
    · split <;> simp
  · split
    · exact ⟨by simp, by simp, .inr (.inl rfl)⟩
    · split
      · exact ⟨by simp, by simp, .inr (.inr rfl)⟩
      · exact ⟨by simp, by simp, .inl rfl⟩

theorem isApart_dropWhile_isWordChar (cs : List Char) : IsApart (cs.dropWhile isWordChar) :=
  Text.not_of_mem_head?_dropWhile cs

theorem isApart_of_takeWhile {cs : List Char} (h : cs.takeWhile isWordChar = []) : IsApart cs := by
  have happend := List.takeWhile_append_dropWhile (p := isWordChar) (l := cs)
  rw [h, List.nil_append] at happend
  rw [← happend]
  exact isApart_dropWhile_isWordChar cs

theorem hasNoSign_cons {c : Char} {cs : List Char} (hc : ¬IsSign c) (hcs : HasNoSign cs) :
    HasNoSign (c :: cs) := by
  intro d hd
  rcases List.mem_cons.1 hd with rfl | hd
  · exact hc
  · exact hcs d hd

theorem hasNoSign_takeWhile {p : Char → Bool} (hp : ∀ sign, IsSign sign → p sign = false)
    (cs : List Char) : HasNoSign (cs.takeWhile p) := by
  intro c hc hsign
  have hpc := List.all_eq_true.1 List.all_takeWhile c hc
  rw [hp c hsign] at hpc
  cases hpc

/-- A token that starts with no sign holds none, and a name is followed by no word. -/
theorem firstToken_plain {c : Char} (hc : ¬IsSign c) (rest : List Char) :
    ∃ word, (firstToken c rest).1.text = c :: word ∧ HasNoSign (c :: word) ∧
      ((firstToken c rest).1.kind = .identifier →
        isWordChar c = true ∧ (∀ d ∈ c :: word, isWordChar d = true) ∧
          IsApart (firstToken c rest).2) := by
  have hword : HasNoSign (c :: rest.takeWhile isWordChar) :=
    hasNoSign_cons hc (hasNoSign_takeWhile (fun _ h => isWordChar_sign h) rest)
  simp only [firstToken]
  rw [if_neg hc]
  split
  · next hstart =>
    have hchar : isWordChar c = true := by
      simp only [isWordStart, Bool.or_eq_true, decide_eq_true_eq] at hstart
      rcases hstart with halpha | rfl
      · simp [isWordChar, Char.isAlphanum, halpha]
      · rfl
    refine ⟨_, rfl, hword, fun _ => ⟨hchar, fun d hd => ?_, isApart_dropWhile_isWordChar rest⟩⟩
    rcases List.mem_cons.1 hd with rfl | hd
    · exact hchar
    · exact List.all_eq_true.1 List.all_takeWhile d hd
  · split
    · exact ⟨_, rfl, hword, fun h => by cases h⟩
    · split
      · refine ⟨_, rfl, ?_, fun h => by cases h⟩
        exact hasNoSign_cons hc (hasNoSign_takeWhile (fun _ h => isBlank_sign h) rest)
      · refine ⟨[], rfl, hasNoSign_cons hc ?_, fun h => by cases h⟩
        exact fun d hd => absurd hd List.not_mem_nil

theorem firstToken_text (c : Char) (rest : List Char) :
    ∃ word, (firstToken c rest).1.text = c :: word := by
  by_cases hc : IsSign c
  · by_cases hempty : rest.takeWhile isWordChar = []
    · exact ⟨[], by rw [firstToken_of_lone_sign hc hempty]⟩
    · exact ⟨_, by rw [firstToken_of_ref hc hempty]⟩
  · obtain ⟨word, htext, -⟩ := firstToken_plain hc rest
    exact ⟨word, htext⟩

/-- The first token is a reference if the text starts with one, and otherwise it hides none. -/
theorem signed_firstToken {sign : Char} (hsign : IsSign sign) (c : Char) (rest : List Char) :
    signed sign (c :: rest) =
      (if (firstToken c rest).1.kind = refKind sign then [(firstToken c rest).1.text] else []) ++
        signed sign (firstToken c rest).2 := by
  have hword := signed_dropWhile (isWordChar_sign hsign) rest
  have hblank := signed_dropWhile (isBlank_sign hsign) rest
  by_cases hc : IsSign c
  · by_cases hempty : rest.takeWhile isWordChar = []
    · have hkind : ¬TokenKind.other = refKind sign := by rcases hsign with rfl | rfl <;> decide
      rw [firstToken_of_lone_sign hc hempty, signed, if_neg fun h => h.2 hempty, if_neg hkind]
      rfl
    · have hkind : refKind c = refKind sign ↔ c = sign := by
        rcases hc with rfl | rfl <;> rcases hsign with rfl | rfl <;> decide
      rw [firstToken_of_ref hc hempty, hword, signed]
      by_cases heq : c = sign
      · rw [if_pos ⟨heq, hempty⟩, if_pos (hkind.2 heq)]
        rfl
      · rw [if_neg fun h => heq h.1, if_neg fun h => heq (hkind.1 h)]
        rfl
  · obtain ⟨hname, hvalue, hrest⟩ := firstToken_of_not_sign hc rest
    have hkind : ¬(firstToken c rest).1.kind = refKind sign := by
      rcases hsign with rfl | rfl
      · exact hname
      · exact hvalue
    have hne : c ≠ sign := fun heq => hc (heq ▸ hsign)
    rw [signed_cons_of_ne hne, if_neg hkind, List.nil_append]
    rcases hrest with hrest | hrest | hrest <;> rw [hrest]
    · exact hword.symm
    · exact hblank.symm

/-- The references among the tokens of a text are those that its signs show. -/
theorem filter_tokens_eq_signed {sign : Char} (hsign : IsSign sign) (cs : List Char) :
    ((tokens cs).filter (·.kind = refKind sign)).map Token.text = signed sign cs := by
  fun_induction tokens cs with
  | case1 => rfl
  | case2 c rest ih =>
    rw [signed_firstToken hsign c rest, List.filter_cons, ← ih]
    simp only [decide_eq_true_eq]
    split
    · rfl
    · rfl

theorem nameRefs_eq (text : String) : nameRefs text = refs '#' text := by
  rw [nameRefs, tokensOf, refs, ← filter_tokens_eq_signed (.inl rfl), List.map_map]
  rfl

theorem valueRefs_eq (text : String) : valueRefs text = refs ':' text := by
  rw [valueRefs, tokensOf, refs, ← filter_tokens_eq_signed (.inr rfl), List.map_map]
  rfl

theorem refs_append_of_not_mem {sign : Char} {a : String} (h : sign ∉ a.toList) (b : String) :
    refs sign (a ++ b) = refs sign b := by
  rw [refs, String.toList_append, signed_append_of_not_mem h]
  rfl

theorem refs_of_not_mem {sign : Char} {a : String} (h : sign ∉ a.toList) : refs sign a = [] := by
  rw [refs, signed_of_not_mem h]
  rfl

/-- References end where a part begins that does not go on with a word. -/
theorem refs_append {b : String} (h : IsApart b.toList) (sign : Char) (a : String) :
    refs sign (a ++ b) = refs sign a ++ refs sign b := by
  rw [refs, String.toList_append, signed_append h, List.map_append]
  rfl

/-- A text that may stand between two parts without touching their references. -/
def IsSeparator (separator : String) : Prop :=
  IsApart separator.toList ∧ separator.toList ≠ [] ∧ HasNoSign separator.toList

instance (separator : String) : Decidable (IsSeparator separator) :=
  inferInstanceAs (Decidable (_ ∧ _ ∧ _))

theorem refs_separated {sign : Char} (hsign : IsSign sign) {separator : String}
    (h : IsSeparator separator) (a b : String) :
    refs sign (a ++ separator ++ b) = refs sign a ++ refs sign b := by
  obtain ⟨hapart, hne, hnone⟩ := h
  have hbehind : IsApart (separator ++ b).toList := by
    obtain ⟨c, cs, hcons⟩ := List.exists_cons_of_ne_nil hne
    rw [hcons] at hapart
    rw [String.toList_append, hcons]
    exact hapart
  rw [String.append_assoc, refs_append hbehind, refs_append_of_not_mem (hnone.not_mem hsign)]

/-- A list of parts has the references of its parts. -/
theorem refs_joinWith {sign : Char} (hsign : IsSign sign) {separator : String}
    (h : IsSeparator separator) (parts : List String) :
    refs sign (Text.joinWith separator parts) = parts.flatMap (refs sign) := by
  fun_induction Text.joinWith separator parts with
  | case1 => rfl
  | case2 part => simp
  | case3 part next rest ih =>
    rw [refs_separated hsign h, ih]
    rfl

theorem refs_sign_cons {sign : Char} (hsign : IsSign sign) {word : List Char} (hne : word ≠ [])
    (hword : ∀ c ∈ word, isWordChar c = true) :
    refs sign (String.ofList (sign :: word)) = [String.ofList (sign :: word)] := by
  have hall : word.takeWhile isWordChar = word := List.takeWhile_eq_self_iff.2 hword
  rw [refs, String.toList_ofList, signed, hall, if_pos ⟨rfl, hne⟩,
    signed_of_not_mem ((hasNoSign_of_isWord hword).not_mem hsign)]
  rfl

end ItemTable.Expression
