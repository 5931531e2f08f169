import ItemTable.Number.Digits
import ItemTable.Proofs.Expression.Names
import Mathlib.Data.List.Chain

/-!
# Tokens that make up a text

How far a token reaches depends on its first character only (`goesOnWith`), and what it is can be
read off its own text (`kindOf`). Tokens are therefore those of a text just if each of them is one
token when it stands alone and none of them takes the beginning of the next (`AreLexed`):
`areLexed_tokens`, `tokens_flatten`. So a text that is put together, or in which some tokens are
replaced, need not be read again to know its tokens.
-/
namespace ItemTable.Expression

theorem isWordChar_eq (c : Char) : isWordChar c = (isWordStart c || c.isDigit) := by
  rw [isWordChar, isWordStart, Char.isAlphanum, Bool.or_assoc, Bool.or_assoc,
    Bool.or_comm c.isDigit]

theorem toNat_of_isAlpha {c : Char} (h : c.isAlpha = true) :
    (65 ≤ c.toNat ∧ c.toNat ≤ 90) ∨ (97 ≤ c.toNat ∧ c.toNat ≤ 122) := by
  rcases Bool.or_eq_true_iff.1 h with hupper | hlower
  · exact .inl (of_decide_eq_true hupper)
  · obtain ⟨hleast, hgreatest⟩ := Bool.and_eq_true_iff.1 hlower
    exact .inr ⟨of_decide_eq_true hleast, of_decide_eq_true hgreatest⟩

theorem isBlank_of_isWordChar {c : Char} (h : isWordChar c = true) : Text.isBlank c = false := by
  simp only [isWordChar, Char.isAlphanum, Bool.or_eq_true, decide_eq_true_eq] at h
  rcases h with (halpha | hdigit) | rfl
  · have hbounds := toNat_of_isAlpha halpha
    exact Text.isBlank_of_visible (by omega)
  · have hbounds := Number.toNat_of_isDigit hdigit
    exact Text.isBlank_of_visible (by omega)
  · decide

/-- The characters that a token goes on with, told by its first one. -/
def goesOnWith (c : Char) : Char → Bool :=
  if IsSign c ∨ isWordChar c = true then isWordChar
  else if Text.isBlank c then Text.isBlank
  else fun _ => false

theorem goesOnWith_of_isSign {c : Char} (h : IsSign c) : goesOnWith c = isWordChar :=
  if_pos (.inl h)

theorem goesOnWith_of_isWordChar {c : Char} (h : isWordChar c = true) : goesOnWith c = isWordChar :=
  if_pos (.inr h)

/-- No token goes on with a sign. -/
theorem goesOnWith_sign (c : Char) {sign : Char} (h : IsSign sign) : goesOnWith c sign = false := by
  unfold goesOnWith
  split
  · exact isWordChar_sign h
  · split
    · exact isBlank_sign h
    · rfl

/-- What a token is, told by its text. -/
def kindOf : List Char → TokenKind
  | [] => .other
  | c :: word =>
    if IsSign c then if word.isEmpty then .other else refKind c
    else if isWordStart c then if isGrammarWord (c :: word) then .keyword else .identifier
    else .other

theorem isSign_or_isWordStart_of_kindOf {c : Char} {word : List Char}
    (h : kindOf (c :: word) ≠ .other) : IsSign c ∨ isWordStart c = true := by
  by_contra hnot
  obtain ⟨hsign, hstart⟩ := not_or.1 hnot
  exact h (by rw [kindOf, if_neg hsign, if_neg hstart])

theorem isWordStart_of_kindOf {c : Char} {word : List Char} (h : kindOf (c :: word) = .identifier) :
    isWordStart c = true := by
  refine (isSign_or_isWordStart_of_kindOf (by rw [h]; decide)).resolve_left fun hsign => ?_
  rw [kindOf, if_pos hsign] at h
  split at h
  · cases h
  · rcases hsign with rfl | rfl <;> cases h

/-- The first token of a text takes all characters that it goes on with. -/
theorem firstToken_eq (c : Char) (rest : List Char) :
    firstToken c rest = (⟨kindOf (c :: rest.takeWhile (goesOnWith c)),
      c :: rest.takeWhile (goesOnWith c)⟩, rest.dropWhile (goesOnWith c)) := by
  by_cases hsign : IsSign c
  · rw [goesOnWith_of_isSign hsign, kindOf, if_pos hsign]
    by_cases hword : rest.takeWhile isWordChar = []
    · have hsplit := List.takeWhile_append_dropWhile (p := isWordChar) (l := rest)
      rw [hword, List.nil_append] at hsplit
      rw [firstToken_of_lone_sign hsign hword, hword, hsplit]
      rfl
    · rw [firstToken_of_ref hsign hword, if_neg (by simpa using hword)]
  · rw [firstToken, if_neg hsign, kindOf, if_neg hsign]
    by_cases hstart : isWordStart c = true
    · have hword : isWordChar c = true := by rw [isWordChar_eq, hstart, Bool.true_or]
      rw [goesOnWith_of_isWordChar hword, if_pos hstart, if_pos hstart]
    · rw [if_neg hstart, if_neg hstart]
      by_cases hdigit : c.isDigit = true
      · have hword : isWordChar c = true := by rw [isWordChar_eq, hdigit, Bool.or_true]
        rw [goesOnWith_of_isWordChar hword, if_pos hdigit]
      · have hnone : ¬(IsSign c ∨ isWordChar c = true) := by
          simp [isWordChar_eq, hsign, hstart, hdigit]
        rw [if_neg hdigit, goesOnWith, if_neg hnone]
        split
        · rfl
        · cases rest <;> rfl

theorem tokens_cons_eq (c : Char) (rest : List Char) :
    tokens (c :: rest) = ⟨kindOf (c :: rest.takeWhile (goesOnWith c)),
      c :: rest.takeWhile (goesOnWith c)⟩ :: tokens (rest.dropWhile (goesOnWith c)) := by
  rw [tokens_cons, firstToken_eq]

/-- What a token goes on with makes up one token with it. -/
theorem tokens_whole {c : Char} {word : List Char} (h : ∀ d ∈ word, goesOnWith c d = true) :
    tokens (c :: word) = [⟨kindOf (c :: word), c :: word⟩] := by
  rw [tokens_cons_eq, List.takeWhile_eq_self_iff.2 h, List.dropWhile_eq_nil_iff.2 h, tokens_nil]

/-- A word is one token, and its first character says which. -/
theorem tokens_word {c : Char} {rest : List Char} (hword : ∀ d ∈ c :: rest, isWordChar d = true) :
    tokens (c :: rest) = [⟨if isWordStart c then
      (if isGrammarWord (c :: rest) then .keyword else .identifier) else .other, c :: rest⟩] := by
  have hsign : ¬IsSign c := hasNoSign_of_isWord hword c List.mem_cons_self
  have hclass := goesOnWith_of_isWordChar (hword c List.mem_cons_self)
  rw [tokens_whole fun d hd => by rw [hclass]; exact hword d (List.mem_cons_of_mem c hd), kindOf,
    if_neg hsign]

theorem tokensOf_namePlaceholder (number : Nat) :
    tokensOf (namePlaceholder number) = [⟨.nameRef, (namePlaceholder number).toList⟩] := by
  have hclass := goesOnWith_of_isSign (c := '#') (.inl rfl)
  rw [tokensOf, toList_namePlaceholder,
    tokens_whole fun d hd => by rw [hclass]; exact isWordChar_of_mem_numbered hd]
  rfl

namespace Token

/-- A token whose text is that one token. -/
def IsWhole (t : Token) : Prop := tokens t.text = [t]

/-- A token that does not take the beginning of a text behind it. -/
def StopsAt (t : Token) (cs : List Char) : Prop :=
  ∀ takes ∈ t.text.head?.map goesOnWith, ∀ c ∈ cs.head?, takes c = false

variable {t : Token}

theorem isWhole_iff : t.IsWhole ↔ ∃ c word, t = ⟨kindOf (c :: word), c :: word⟩ ∧
    ∀ d ∈ word, goesOnWith c d = true := by
  constructor
  · intro h
    cases htext : t.text with
    | nil =>
      rw [IsWhole, htext, tokens_nil] at h
      cases h
    | cons c rest =>
      rw [IsWhole, htext, tokens_cons_eq] at h
      obtain ⟨hfirst, -⟩ := List.cons.inj h
      exact ⟨c, rest.takeWhile (goesOnWith c), hfirst.symm, List.all_eq_true.1 List.all_takeWhile⟩
  · rintro ⟨c, word, rfl, hword⟩
    exact tokens_whole hword

theorem IsWhole.ne_nil (h : t.IsWhole) : t.text ≠ [] := by
  obtain ⟨c, word, rfl, -⟩ := isWhole_iff.1 h
  exact List.cons_ne_nil c word

/-- A bare name is a word. -/
theorem IsWhole.isWord (h : t.IsWhole) (hkind : t.kind = .identifier) :
    t.text ≠ [] ∧ ∀ c ∈ t.text, isWordChar c = true := by
  obtain ⟨c, word, rfl, hword⟩ := isWhole_iff.1 h
  have hc : isWordChar c = true := by rw [isWordChar_eq, isWordStart_of_kindOf hkind, Bool.true_or]
  rw [goesOnWith_of_isWordChar hc] at hword
  exact ⟨List.cons_ne_nil c word, List.forall_mem_cons.2 ⟨hc, hword⟩⟩

/-- Names, placeholders and words of the grammar begin with no blank and go on with words. -/
theorem IsWhole.goesOn (h : t.IsWhole) (hkind : t.kind ≠ .other) :
    ∃ c word, t.text = c :: word ∧ Text.isBlank c = false ∧ goesOnWith c = isWordChar := by
  obtain ⟨c, word, rfl, -⟩ := isWhole_iff.1 h
  refine ⟨c, word, rfl, ?_⟩
  rcases isSign_or_isWordStart_of_kindOf hkind with hsign | hstart
  · exact ⟨isBlank_sign hsign, goesOnWith_of_isSign hsign⟩
  · have hc : isWordChar c = true := by rw [isWordChar_eq, hstart, Bool.true_or]
    exact ⟨isBlank_of_isWordChar hc, goesOnWith_of_isWordChar hc⟩

theorem IsWhole.stopsAt (h : t.IsWhole) (hkind : t.kind ≠ .other) {cs : List Char}
    (hapart : IsApart cs) : t.StopsAt cs := by
  obtain ⟨c, word, htext, -, hgoes⟩ := h.goesOn hkind
  intro takes htakes
  rw [htext] at htakes
  cases htakes
  rw [hgoes]
  exact hapart

/-- A whole token is the first one of every text that it stops at. -/
theorem IsWhole.tokens_append (h : t.IsWhole) {cs : List Char} (hstops : t.StopsAt cs) :
    tokens (t.text ++ cs) = t :: tokens cs := by
  obtain ⟨c, word, rfl, hword⟩ := isWhole_iff.1 h
  obtain ⟨htake, hdrop⟩ := Text.span_append hword (hstops _ rfl)
  rw [List.cons_append, tokens_cons_eq, htake, hdrop]

end Token

/-- The tokens of some text: all of them whole, and none taking the beginning of the next. -/
structure AreLexed (ts : List Token) : Prop where
  whole : ∀ t ∈ ts, t.IsWhole
  apart : ts.IsChain fun t next => t.StopsAt next.text

/-- The tokens of a text begin as the text does. -/
theorem head?_tokens {cs : List Char} {t : Token} (h : t ∈ (tokens cs).head?) :
    t.text.head? = cs.head? := by
  cases cs with
  | nil =>
    rw [tokens_nil] at h
    cases h
  | cons c rest =>
    rw [tokens_cons_eq] at h
    cases h
    rfl

theorem areLexed_tokens (cs : List Char) : AreLexed (tokens cs) := by
  fun_induction tokens cs with
  | case1 => exact ⟨fun t ht => absurd ht List.not_mem_nil, .nil⟩
  | case2 c rest ih =>
    rw [firstToken_eq] at ih ⊢
    constructor
    case whole =>
      refine List.forall_mem_cons.2 ⟨?_, ih.whole⟩
      exact tokens_whole (List.all_eq_true.1 List.all_takeWhile)
    case apart =>
      refine List.isChain_cons.2 ⟨fun next hnext takes htakes d hd => ?_, ih.apart⟩
      cases htakes
      rw [head?_tokens hnext] at hd
      exact Text.not_of_mem_head?_dropWhile rest d hd

/-- Lexed tokens are the tokens of what they make up. -/
theorem tokens_flatten {ts : List Token} (h : AreLexed ts) :
    tokens (ts.map Token.text).flatten = ts := by
  induction ts with
  | nil => exact tokens_nil
  | cons t rest ih =>
    obtain ⟨hwhole, hrest⟩ := List.forall_mem_cons.1 h.whole
    obtain ⟨hnext, happart⟩ := List.isChain_cons.1 h.apart
    have hstops : t.StopsAt (rest.map Token.text).flatten := by
      cases rest with
      | nil =>
        intro takes htakes c hc
        cases hc
      | cons next more =>
        obtain ⟨d, ds, htext⟩ := List.exists_cons_of_ne_nil
          (Token.IsWhole.ne_nil (hrest next List.mem_cons_self))
        have hstops := hnext next rfl
        intro takes htakes c hc
        rw [List.map_cons, List.flatten_cons, htext] at hc
        exact hstops takes htakes c (by rw [htext]; exact hc)
    rw [List.map_cons, List.flatten_cons, hwhole.tokens_append hstops, ih ⟨hrest, happart⟩]

/-- A text has the tokens of its two parts if none of them runs over the seam. -/
theorem tokens_append {cs ds : List Char} (h : ∀ t ∈ (tokens cs).getLast?, t.StopsAt ds) :
    tokens (cs ++ ds) = tokens cs ++ tokens ds := by
  have hcs := areLexed_tokens cs
  have hds := areLexed_tokens ds
  have hboth : AreLexed (tokens cs ++ tokens ds) := by
    constructor
    case whole =>
      intro t ht
      rcases List.mem_append.1 ht with ht | ht
      · exact hcs.whole t ht
      · exact hds.whole t ht
    case apart =>
      refine List.isChain_append.2 ⟨hcs.apart, hds.apart,
        fun t ht next hnext takes htakes c hc => ?_⟩
      rw [head?_tokens hnext] at hc
      exact h t ht takes htakes c hc
  have htokens := tokens_flatten hboth
  rwa [List.map_append, List.flatten_append, flatten_tokens, flatten_tokens] at htokens

end ItemTable.Expression
