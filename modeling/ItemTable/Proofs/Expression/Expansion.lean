import ItemTable.Proofs.Expression.Fragment
import ItemTable.Proofs.Expression.Merge

/-!
# What texts mean

Under a meaning of its placeholders a text expands to pieces: a placeholder of a name to the
characters of the name, a placeholder of a value to the value, and every other token to its own
characters. `expand` goes by tokens. Tokens of parts are not the tokens of the whole, since blanks
and words grow together, but their characters are: `spell` reads the same pieces off one character
after another (`expand_eq_spell`), and so a text that is put together expands part by part
(`expand_append`, `expand_joinWith`).
-/
namespace ItemTable.Expression

/-- A part of what a text means. -/
inductive Piece where
  | char (c : Char)
  | value (v : AttributeValue)
deriving DecidableEq

/-- The pieces of a text that stands for itself. -/
def plain (text : String) : List Piece := text.toList.map .char

/-- What a token means. A placeholder that stands for nothing is left as it is. -/
def Token.meant (m : Meaning) (t : Token) : List Piece :=
  let text := String.ofList t.text
  match t.kind with
  | .nameRef => plain ((m.names text).getD text)
  | .valueRef => ((m.values text).map fun v => [Piece.value v]).getD (plain text)
  | .identifier | .keyword | .other => plain text

/-- What a text means. -/
def expand (m : Meaning) (text : String) : List Piece := (tokensOf text).flatMap (Token.meant m)

/-- What characters mean, given whether they may go on with the word of a reference. -/
def spell (m : Meaning) (inRef : Bool) : List Char → List Piece
  | [] => []
  | c :: rest =>
    if inRef && isWordChar c then spell m true rest
    else if IsSign c ∧ rest.takeWhile isWordChar ≠ [] then
      Token.meant m ⟨refKind c, c :: rest.takeWhile isWordChar⟩ ++ spell m true rest
    else .char c :: spell m false rest

section Spell

variable {m : Meaning}

theorem spell_true (cs : List Char) :
    spell m true cs = spell m false (cs.dropWhile isWordChar) := by
  induction cs with
  | nil => rfl
  | cons c rest ih =>
    rw [List.dropWhile_cons]
    by_cases hword : isWordChar c = true
    · rw [if_pos hword, spell, if_pos (by simp [hword]), ih]
    · simp [spell, hword]

/-- What is spelled does not depend on what stands in front of a text that is apart from it. -/
theorem spell_of_isApart {cs : List Char} (h : IsApart cs) (inRef : Bool) :
    spell m inRef cs = spell m false cs := by
  cases cs with
  | nil => rfl
  | cons c rest =>
    have hc : isWordChar c = false := h c rfl
    simp [spell, hc]

theorem spell_append {ds : List Char} (h : IsApart ds) (inRef : Bool) (cs : List Char) :
    spell m inRef (cs ++ ds) = spell m inRef cs ++ spell m false ds := by
  induction cs generalizing inRef with
  | nil => exact spell_of_isApart h inRef
  | cons c rest ih =>
    rw [List.cons_append, spell, spell, takeWhile_append_of_isApart h]
    split
    · exact ih true
    · split
      · rw [ih, List.append_assoc]
      · rw [ih, List.cons_append]

theorem spell_plain_append {cs : List Char} (h : HasNoSign cs) (ds : List Char) :
    spell m false (cs ++ ds) = cs.map .char ++ spell m false ds := by
  induction cs with
  | nil => rfl
  | cons c rest ih =>
    have hc : ¬IsSign c := h c List.mem_cons_self
    have hrest : HasNoSign rest := fun d hd => h d (List.mem_cons_of_mem _ hd)
    rw [List.cons_append, spell, Bool.false_and, if_neg Bool.false_ne_true,
      if_neg fun hsign => hc hsign.1, ih hrest]
    rfl

theorem spell_ref {sign : Char} (hsign : IsSign sign) {rest : List Char}
    (hne : rest.takeWhile isWordChar ≠ []) :
    spell m false (sign :: rest) =
      Token.meant m ⟨refKind sign, sign :: rest.takeWhile isWordChar⟩ ++
        spell m false (rest.dropWhile isWordChar) := by
  rw [spell, Bool.false_and, if_neg Bool.false_ne_true, if_pos ⟨hsign, hne⟩, spell_true]

theorem meant_of_not_ref {t : Token} (hname : t.kind ≠ .nameRef) (hvalue : t.kind ≠ .valueRef) :
    t.meant m = t.text.map .char := by
  have hplain : plain (String.ofList t.text) = t.text.map .char := by
    rw [plain, String.toList_ofList]
  cases hkind : t.kind with
  | nameRef => exact absurd hkind hname
  | valueRef => exact absurd hkind hvalue
  | identifier | keyword | other => simp only [Token.meant, hkind, hplain]

theorem flatMap_tokens_eq_spell (cs : List Char) :
    (tokens cs).flatMap (Token.meant m) = spell m false cs := by
  fun_induction tokens cs with
  | case1 => rfl
  | case2 c rest ih =>
    rw [List.flatMap_cons, ih]
    by_cases hc : IsSign c
    · by_cases hempty : rest.takeWhile isWordChar = []
      · rw [firstToken_of_lone_sign hc hempty, meant_of_not_ref (by simp) (by simp)]
        have hlone : ¬(IsSign c ∧ rest.takeWhile isWordChar ≠ []) := fun h => h.2 hempty
        rw [spell, Bool.false_and, if_neg Bool.false_ne_true, if_neg hlone]
        rfl
      · rw [firstToken_of_ref hc hempty, spell_ref hc hempty]
    · obtain ⟨hname, hvalue, -⟩ := firstToken_of_not_sign hc rest
      obtain ⟨word, htext, hnone, -⟩ := firstToken_plain hc rest
      rw [← firstToken_append c rest, htext, spell_plain_append hnone,
        meant_of_not_ref hname hvalue, htext]

theorem expand_eq_spell (text : String) : expand m text = spell m false text.toList :=
  flatMap_tokens_eq_spell text.toList

end Spell

section Expand

variable {m : Meaning}

/-- A text means the same under meanings that agree about its references. -/
theorem expand_congr {m' : Meaning} {text : String}
    (hnames : ∀ key ∈ nameRefs text, m.names key = m'.names key)
    (hvalues : ∀ key ∈ valueRefs text, m.values key = m'.values key) :
    expand m text = expand m' text := by
  refine List.flatMap_congr fun t ht => ?_
  have hmem {refs : TokenKind} (hkind : t.kind = refs) :
      String.ofList t.text ∈
        ((tokensOf text).filter (·.kind = refs)).map fun t => String.ofList t.text :=
    List.mem_map_of_mem (List.mem_filter.2 ⟨ht, by simpa using hkind⟩)
  cases hkind : t.kind with
  | nameRef => simp only [Token.meant, hkind, hnames _ (hmem hkind)]
  | valueRef => simp only [Token.meant, hkind, hvalues _ (hmem hkind)]
  | identifier | keyword | other => simp only [Token.meant, hkind]

theorem expand_append {b : String} (h : IsApart b.toList) (a : String) :
    expand m (a ++ b) = expand m a ++ expand m b := by
  rw [expand_eq_spell, expand_eq_spell, expand_eq_spell, String.toList_append, spell_append h]

theorem expand_plain_append {a : String} (h : HasNoSign a.toList) (b : String) :
    expand m (a ++ b) = plain a ++ expand m b := by
  rw [expand_eq_spell, expand_eq_spell, String.toList_append, spell_plain_append h]
  rfl

theorem expand_empty : expand m "" = [] := by
  rw [expand_eq_spell]
  rfl

theorem expand_of_hasNoSign {a : String} (h : HasNoSign a.toList) : expand m a = plain a := by
  have happend := expand_plain_append (m := m) h ""
  rwa [String.append_empty, expand_empty, List.append_nil] at happend

theorem expand_separated {separator : String} (h : IsSeparator separator) (a b : String) :
    expand m (a ++ separator ++ b) = expand m a ++ plain separator ++ expand m b := by
  obtain ⟨hapart, hne, hnone⟩ := h
  have hbehind : IsApart (separator ++ b).toList := by
    obtain ⟨c, cs, hcons⟩ := List.exists_cons_of_ne_nil hne
    rw [hcons] at hapart
    rw [String.toList_append, hcons]
    exact hapart
  rw [String.append_assoc, expand_append hbehind, expand_plain_append hnone, List.append_assoc]

theorem expand_closed {closing : String} (h : IsSeparator closing) (text : String) :
    expand m (text ++ closing) = expand m text ++ plain closing := by
  obtain ⟨hapart, -, hnone⟩ := h
  rw [expand_append hapart, expand_of_hasNoSign hnone]

theorem expand_joinWith {separator : String} (h : IsSeparator separator) (parts : List String) :
    expand m (Text.joinWith separator parts) =
      (plain separator).intercalate (parts.map (expand m)) := by
  fun_induction Text.joinWith separator parts with
  | case1 => exact expand_empty
  | case2 part => simp
  | case3 part next rest ih =>
    rw [expand_separated h, ih, List.map_cons (a := part), List.map_cons,
      List.intercalate_cons_cons, List.append_assoc]

/-- A reference by itself means what its token does. -/
theorem expand_ref {sign : Char} (hsign : IsSign sign) {text : String} {word : List Char}
    (htext : text.toList = sign :: word) (hne : word ≠ [])
    (hword : ∀ c ∈ word, isWordChar c = true) :
    expand m text = Token.meant m ⟨refKind sign, text.toList⟩ := by
  have htake : word.takeWhile isWordChar = word := List.takeWhile_eq_self_iff.2 hword
  have hdrop : word.dropWhile isWordChar = [] := List.dropWhile_eq_nil_iff.2 hword
  rw [expand_eq_spell, htext, spell_ref hsign (by rwa [htake]), htake, hdrop]
  exact List.append_nil _

theorem expand_namePlaceholder {number : Nat} {name : String}
    (h : m.names (namePlaceholder number) = some name) :
    expand m (namePlaceholder number) = plain name := by
  have hword : ∀ c ∈ 'n' :: Nat.toDigits 10 number, isWordChar c = true := by
    intro c hc
    rcases List.mem_cons.1 hc with rfl | hc
    · decide
    · exact isWordChar_of_mem_toDigits hc
  rw [expand_ref (.inl rfl) (toList_namePlaceholder number) (List.cons_ne_nil _ _) hword]
  simp only [Token.meant, refKind, String.ofList_toList, h, Option.getD_some]

theorem expand_valueRef {key : String} (hkey : IsValueRef key) {v : AttributeValue}
    (h : m.values key = some v) : expand m key = [.value v] := by
  obtain ⟨hhead, hne, hword⟩ := hkey
  obtain ⟨word, htext⟩ := List.head?_eq_some_iff.1 hhead
  rw [htext, List.tail_cons] at hne hword
  rw [expand_ref (.inr rfl) htext hne (List.all_eq_true.1 hword)]
  simp only [Token.meant, refKind, String.ofList_toList, h, Option.map_some, Option.getD_some]

end Expand

end ItemTable.Expression
