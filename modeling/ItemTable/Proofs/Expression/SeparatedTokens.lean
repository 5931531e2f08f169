import ItemTable.Proofs.Expression.Lexing

/-!
# Tokens of texts with a separator

Texts with a separator between neighbours have the tokens of the texts, with those of the separator
between them, unless a token runs over a seam: `Stands.intercalate`. Conversely the tokens of the
whole can be taken apart at the separator in one way only, so that what is found between the
separators are the tokens of the texts: `separated_tokens_iff`.
-/
namespace ItemTable.Expression

theorem infix_intercalate {α : Type} (sep : List α) {parts : List (List α)} {part : List α}
    (h : part ∈ parts) : part <:+: sep.intercalate parts := by
  induction parts with
  | nil => cases h
  | cons first rest ih =>
    cases rest with
    | nil =>
      exact ⟨[], [], by rw [List.mem_singleton.1 h, List.intercalate_singleton, List.nil_append,
        List.append_nil]⟩
    | cons next rest =>
      rw [List.intercalate_cons_cons]
      rcases List.mem_cons.1 h with rfl | h
      · rw [List.append_assoc]
        exact (List.prefix_append _ _).isInfix
      · exact (ih h).trans (List.suffix_append _ _).isInfix

/-- Parts without the separator's first character can be told from the whole. -/
theorem intercalate_inj {c : Char} {more : List Char} {xs ys : List (List Char)}
    (hlength : xs.length = ys.length) (hxs : ∀ x ∈ xs, c ∉ x) (hys : ∀ y ∈ ys, c ∉ y)
    (h : (c :: more).intercalate xs = (c :: more).intercalate ys) : xs = ys := by
  induction xs generalizing ys with
  | nil => exact (List.length_eq_zero_iff.1 hlength.symm).symm
  | cons x xs ih =>
    cases ys with
    | nil => cases hlength
    | cons y ys =>
      obtain ⟨hx, hxs'⟩ := List.forall_mem_cons.1 hxs
      obtain ⟨hy, hys'⟩ := List.forall_mem_cons.1 hys
      replace hlength : xs.length = ys.length := Nat.succ.inj hlength
      cases xs with
      | nil =>
        obtain rfl := List.length_eq_zero_iff.1 hlength.symm
        rwa [List.intercalate_singleton, List.intercalate_singleton, ← List.singleton_inj] at h
      | cons x' xs =>
        cases ys with
        | nil => cases hlength
        | cons y' ys =>
          rw [List.intercalate_cons_cons, List.intercalate_cons_cons, List.append_assoc,
            List.append_assoc, List.cons_append, List.cons_append] at h
          have hfirst := congrArg (Text.splitAt c) h
          rw [Text.splitAt_append_cons hx, Text.splitAt_append_cons hy] at hfirst
          obtain ⟨rfl, -⟩ := List.cons.inj hfirst
          have hrest := List.append_cancel_left (List.cons.inj (List.append_cancel_left h)).2
          rw [ih hlength hxs' hys' hrest]

/-- A token of one character that takes nothing behind it. -/
def mark (c : Char) : Token := ⟨.other, [c]⟩

theorem tokens_mark {c : Char} (hsign : ¬IsSign c) (hword : isWordChar c = false)
    (hblank : Text.isBlank c = false) (rest : List Char) :
    tokens (c :: rest) = mark c :: tokens rest := by
  have hnone : goesOnWith c = fun _ => false := by
    rw [goesOnWith, if_neg (by simp [hsign, hword]), hblank]
    rfl
  have hstart : isWordStart c = false := by
    rw [isWordChar_eq, Bool.or_eq_false_iff] at hword
    exact hword.1
  rw [tokens_cons_eq, hnone]
  cases rest <;> simp [mark, kindOf, hsign, hstart]

theorem flatten_intercalate (marks : List Token) (parts : List (List Token)) :
    ((marks.intercalate parts).map Token.text).flatten =
      (marks.map Token.text).flatten.intercalate
        (parts.map fun part => (part.map Token.text).flatten) := by
  induction parts with
  | nil => rfl
  | cons part rest ih =>
    cases rest with
    | nil => simp
    | cons next rest =>
      rw [List.intercalate_cons_cons, List.map_append, List.map_append, List.flatten_append,
        List.flatten_append, ih]
      exact List.intercalate_cons_cons.symm

/-- Some of the tokens of a text, one after another, are the tokens of what they make up. -/
theorem AreLexed.of_infix {ts part : List Token} (h : AreLexed ts) (hpart : part <:+: ts) :
    AreLexed part where
  whole := fun t ht => h.whole t (hpart.subset ht)
  apart := h.apart.infix hpart

/-- A text that begins with no blank, and whose tokens end before everything that goes on with no
word. -/
structure Stands (cs : List Char) : Prop where
  starts : ∃ c rest, cs = c :: rest ∧ Text.isBlank c = false
  ends : ∀ ds, IsApart ds → tokens (cs ++ ds) = tokens cs ++ tokens ds

/-- A separator with its tokens. -/
structure Separates (sep : List Char) (marks : List Token) : Prop where
  apart : ∀ ds, IsApart (sep ++ ds)
  tokens : ∀ c rest, Text.isBlank c = false →
    tokens (sep ++ c :: rest) = marks ++ tokens (c :: rest)

namespace Separates

variable {sep : List Char} {marks : List Token}

theorem flatten_eq (h : Separates sep marks) : (marks.map Token.text).flatten = sep := by
  have htokens := congrArg (fun ts => (ts.map Token.text).flatten) (h.tokens 'a' [] (by decide))
  simp only [List.map_append, List.flatten_append, flatten_tokens] at htokens
  exact (List.append_cancel_right htokens).symm

/-- Texts that stand stand together. -/
theorem stands_intercalate (h : Separates sep marks) {part : List Char} {rest : List (List Char)}
    (hparts : ∀ p ∈ part :: rest, Stands p) :
    Stands (sep.intercalate (part :: rest)) ∧
      Expression.tokens (sep.intercalate (part :: rest)) =
        marks.intercalate ((part :: rest).map Expression.tokens) := by
  induction rest generalizing part with
  | nil => simpa using hparts part List.mem_cons_self
  | cons next rest ih =>
    obtain ⟨hpart, hrest⟩ := List.forall_mem_cons.1 hparts
    obtain ⟨hstands, htokens⟩ := ih hrest
    rw [List.map_cons, List.map_cons, List.intercalate_cons_cons, List.intercalate_cons_cons,
      ← List.map_cons, ← htokens]
    generalize sep.intercalate (next :: rest) = behind at hstands ⊢
    obtain ⟨c, cs, rfl, hc⟩ := hstands.starts
    have hseam (ds : List Char) : Expression.tokens (part ++ sep ++ (c :: cs) ++ ds) =
        Expression.tokens part ++ marks ++ Expression.tokens (c :: cs ++ ds) := by
      rw [List.append_assoc, List.append_assoc, hpart.ends _ (h.apart _), List.cons_append,
        h.tokens c _ hc, List.append_assoc]
    have hwhole := hseam []
    rw [List.append_nil, List.append_nil] at hwhole
    refine ⟨⟨?_, fun ds hds => ?_⟩, hwhole⟩
    · obtain ⟨d, ds, rfl, hd⟩ := hpart.starts
      exact ⟨d, ds ++ sep ++ c :: cs, by simp, hd⟩
    · rw [hseam, hwhole, hstands.ends ds hds, List.append_assoc _ _ (Expression.tokens ds)]

end Separates

/-- **Texts are read one by one.** A text that is put together with a separator consists of parts of
some kind, each for one of the texts, just if the tokens of each text are such a part. -/
theorem separated_tokens_iff {α : Type} {c : Char} {more : List Char} {marks : List Token}
    (hsep : Separates (c :: more) marks) {as : List α} {written : α → List Char}
    {IsPart : α → List Token → Prop} (hwritten : ∀ a ∈ as, c ∉ written a)
    (hpart : ∀ a ∈ as, ∀ ts, IsPart a ts → c ∉ (ts.map Token.text).flatten)
    (hstands : ∀ a ∈ as, IsPart a (tokens (written a)) → Stands (written a)) :
    (∃ parts, List.Forall₂ IsPart as parts ∧
        tokens ((c :: more).intercalate (as.map written)) = marks.intercalate parts) ↔
      ∀ a ∈ as, IsPart a (tokens (written a)) := by
  constructor
  · rintro ⟨parts, hparts, htokens⟩
    have hlexed := areLexed_tokens ((c :: more).intercalate (as.map written))
    have hflat := congrArg (fun ts => (ts.map Token.text).flatten) htokens
    simp only [flatten_tokens, flatten_intercalate, hsep.flatten_eq] at hflat
    rw [htokens] at hlexed
    obtain ⟨hlength, heach⟩ := List.forall₂_iff_get.1 hparts
    have hsame : as.map written = parts.map fun part => (part.map Token.text).flatten := by
      refine intercalate_inj (by simpa using hlength) (List.forall_mem_map.2 hwritten) ?_ hflat
      refine List.forall_mem_map.2 fun part hmem => ?_
      obtain ⟨place, hplace, rfl⟩ := List.getElem_of_mem hmem
      exact hpart _ (List.getElem_mem _) _ (heach place (hlength ▸ hplace) hplace)
    intro a ha
    obtain ⟨place, hplace, rfl⟩ := List.getElem_of_mem ha
    have hplace' : place < parts.length := hlength ▸ hplace
    have hown : written as[place] = (parts[place].map Token.text).flatten := by
      have hget := congrArg (fun texts => texts[place]?) hsame
      simpa [hplace, hplace'] using hget
    have hlexed := hlexed.of_infix (infix_intercalate marks (List.getElem_mem hplace'))
    rw [hown, tokens_flatten hlexed]
    exact heach place hplace hplace'
  · intro h
    refine ⟨as.map fun a => tokens (written a), ?_, ?_⟩
    · rw [List.forall₂_map_right_iff, List.forall₂_same]
      exact h
    · cases as with
      | nil => exact tokens_nil
      | cons a rest =>
        have hall : ∀ p ∈ written a :: rest.map written, Stands p := by
          rw [← List.map_cons, List.forall_mem_map]
          exact fun a ha => hstands a ha (h a ha)
        rw [List.map_cons, (hsep.stands_intercalate hall).2, List.map_cons, List.map_map]
        rfl

end ItemTable.Expression
