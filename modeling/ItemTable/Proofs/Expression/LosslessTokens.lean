import ItemTable.Proofs.Expression.Lexing

/-!
# Tokens that lose nothing

The tokens of a text are cut out of it one behind another, always between two characters and never
inside the encoding of one (`AreCut`). Each of them stays the token that it is when it stands alone,
and no letter, digit or underscore is left behind a token that is like a word
(`Token.IsWhole.not_word_behind`). All of it holds of every text: `tokensOf_lossless`.
-/
namespace ItemTable.Expression

/-- Tokens that are cut out of a text one behind another, from a place in it to its end. A place in
a text is the offset of a character in its encoding, or of its end. -/
inductive AreCut (s : String) : s.Pos → List Token → Prop
  | done : AreCut s s.endPos []
  | cut {start stop : s.Pos} {t : Token} {ts : List Token} (hlt : start < stop)
      (htext : (s.slice start stop (Std.le_of_lt hlt)).copy = String.ofList t.text)
      (hrest : AreCut s stop ts) :
      AreCut s start (t :: ts)

/-- Texts of tokens that make up the rest of a text can be cut out of it. -/
theorem areCut_of_splits {s front : String} {ts : List Token} (hne : ∀ t ∈ ts, t.text ≠ [])
    {start : s.Pos} (h : start.Splits front (String.ofList (ts.map Token.text).flatten)) :
    AreCut s start ts := by
  induction ts generalizing front start with
  | nil =>
    rw [h.eq_endPos_iff.2 rfl]
    exact .done
  | cons t rest ih =>
    obtain ⟨hfirst, hrest⟩ := List.forall_mem_cons.1 hne
    rw [List.map_cons, List.flatten_cons, String.ofList_append] at h
    have hstop := h.splits_rotateRight
    have hlt : start < h.rotateRight :=
      (h.lt_iff_exists_eq_append hstop).2 ⟨String.ofList t.text, by simpa using hfirst, rfl, rfl⟩
    obtain ⟨_, htext⟩ := String.copy_slice_eq_iff_splits.2 ⟨front, _, h, hstop⟩
    exact .cut hlt htext (ih hrest hstop)

namespace Token

/-- Names, words of the grammar, placeholders and numbers. -/
def IsWordLike (t : Token) : Prop := t.kind ≠ .other ∨ ∃ c ∈ t.text.head?, c.isDigit = true

/-- What stands behind a word-like token does not begin as a word goes on. -/
theorem IsWhole.not_word_behind {t : Token} (h : t.IsWhole) (hword : t.IsWordLike) {cs : List Char}
    (hstops : t.StopsAt cs) : ∀ c ∈ cs.head?, ¬(c.isAlpha = true ∨ c.isDigit = true ∨ c = '_') := by
  obtain ⟨first, word, htext, hgoes⟩ :
      ∃ first word, t.text = first :: word ∧ goesOnWith first = isWordChar := by
    rcases hword with hkind | ⟨first, hfirst, hdigit⟩
    · obtain ⟨first, word, htext, -, hgoes⟩ := h.goesOn hkind
      exact ⟨first, word, htext, hgoes⟩
    · obtain ⟨word, htext⟩ := List.head?_eq_some_iff.1 hfirst
      exact ⟨first, word, htext,
        goesOnWith_of_isWordChar (by rw [isWordChar_eq, hdigit, Bool.or_true])⟩
  intro c hc
  have hnot : goesOnWith first c = false := hstops _ (by rw [htext]; rfl) c hc
  rw [hgoes, isWordChar, Char.isAlphanum] at hnot
  simpa [and_assoc] using hnot

end Token

/-- Every token takes a character at least. -/
theorem length_tokens_le (cs : List Char) : (tokens cs).length ≤ cs.length := by
  fun_induction tokens cs with
  | case1 => exact Nat.le_refl 0
  | case2 c rest ih =>
    have hlt := length_firstToken_lt c rest
    rw [List.length_cons]
    omega

/-- **The lexer loses nothing and is stable.** Every text is cut into tokens from its start to its
end, in at most as many of them as it has characters. None is empty, together they give the text
back, each is the only token of its own text, and none that is like a word stands in front of one
that begins like a word. -/
theorem tokensOf_lossless (s : String) :
    AreCut s s.startPos (tokensOf s) ∧
      String.join ((tokensOf s).map fun t => String.ofList t.text) = s ∧
      (tokensOf s).length ≤ s.length ∧
      (∀ t ∈ tokensOf s, t.text ≠ [] ∧ tokensOf (String.ofList t.text) = [t]) ∧
      (tokensOf s).IsChain fun t next => t.IsWordLike →
        ∀ c ∈ next.text.head?, ¬(c.isAlpha = true ∨ c.isDigit = true ∨ c = '_') := by
  have hlexed : AreLexed (tokensOf s) := areLexed_tokens s.toList
  have hflatten : ((tokensOf s).map Token.text).flatten = s.toList := flatten_tokens s.toList
  have hne : ∀ t ∈ tokensOf s, t.text ≠ [] := fun t ht => (hlexed.whole t ht).ne_nil
  have hsplits : s.startPos.Splits "" (String.ofList ((tokensOf s).map Token.text).flatten) := by
    rw [hflatten, String.ofList_toList]
    exact String.splits_startPos s
  refine ⟨areCut_of_splits hne hsplits, ?_, length_tokens_le s.toList,
    fun t ht => ⟨hne t ht, ?_⟩, ?_⟩
  · rw [← String.toList_inj, String.toList_join, List.flatMap_map, ← hflatten, List.flatMap_def]
    simp only [String.toList_ofList]
  · rw [tokensOf, String.toList_ofList]
    exact hlexed.whole t ht
  · exact hlexed.apart.imp_of_mem_imp fun t next ht _ hstops hword =>
      (hlexed.whole t ht).not_word_behind hword hstops

/-- Signs without a word behind them, a character of two bytes, a number with letters, and a blank
of three bytes. -/
example : (tokensOf "é#: 2fa\u3000#a:b").map (fun t => String.ofList t.text) =
    ["é", "#", ":", " ", "2fa", "\u3000", "#a", ":b"] := by decide +kernel

end ItemTable.Expression
