import ItemTable.Proofs.Expression.Lexing
import ItemTable.Proofs.Expression.Numbering

/-!
# Rewriting a free expression

A resolver replaces the bare names of an expression that are reserved, and leaves every other token
as it is (`Token.Becomes`). The rewritten text has just the replaced tokens, since no placeholder
runs into what stands next to it, and there is nothing left in it to rewrite:
`Resolver.expression_rewrites`.

The placeholders that are given out meanwhile depend on how many names the resolver knows, and not
on the expression. One of them may stand in the expression already, as a reference of the caller's
own: `Resolver.keepsClear_iff`, `capturedReference_not_clear`.
-/
namespace ItemTable.Expression

namespace Token

/-- A bare name that is reserved and not let through. -/
def isReplaced (passthrough : List String) (t : Token) : Bool :=
  t.kind = .identifier && isReserved (String.ofList t.text) &&
    !passthrough.contains (String.ofList t.text)

/-- A token and the one that stands for it in a rewritten expression. -/
inductive Becomes (r : Resolver) (t : Token) : Token → Prop where
  | same : t.isReplaced r.passthrough = false → Becomes r t t
  /-- A name that is replaced gives way to the placeholder that the resolver has for it. -/
  | placeholder {key : String} : t.isReplaced r.passthrough = true →
    r.placeholder? (String.ofList t.text) = some key →
    r.names.get? key = some (String.ofList t.text) → Becomes r t ⟨.nameRef, key.toList⟩

variable {r : Resolver} {t t' next next' : Token}

theorem kind_of_isReplaced {passthrough : List String} (h : t.isReplaced passthrough = true) :
    t.kind = .identifier := by
  rw [isReplaced, Bool.and_eq_true, Bool.and_eq_true, decide_eq_true_eq] at h
  exact h.1.1

theorem isReplaced_eq (h : t.IsWhole) (hkind : t.kind = .identifier) (passthrough : List String) :
    t.isReplaced passthrough = !isLeft passthrough (String.ofList t.text) := by
  have hword : ∀ c ∈ (String.ofList t.text).toList, isWordChar c = true := by
    rw [String.toList_ofList]
    exact (h.isWord hkind).2
  simp [isReplaced, isLeft, hkind, needsPlaceholder_of_isWord hword]

theorem Becomes.isWhole (h : t.Becomes r t') (hwhole : t.IsWhole) : t'.IsWhole := by
  cases h with
  | same => exact hwhole
  | placeholder hreplaced hkey hname =>
    obtain ⟨number, rfl, -⟩ := (Resolver.get?_names_eq_some_iff _ _ _).1 hname
    exact tokensOf_namePlaceholder number

/-- A placeholder goes on with what the name in its place goes on with. -/
theorem Becomes.goesOnWith_eq (h : t.Becomes r t') (hwhole : t.IsWhole) :
    t'.text.head?.map goesOnWith = t.text.head?.map goesOnWith := by
  cases h with
  | same => rfl
  | placeholder hreplaced hkey hname =>
    obtain ⟨number, rfl, -⟩ := (Resolver.get?_names_eq_some_iff _ _ _).1 hname
    obtain ⟨hne, hword⟩ := hwhole.isWord (kind_of_isReplaced hreplaced)
    obtain ⟨c, word, htext⟩ := List.exists_cons_of_ne_nil hne
    have hc : isWordChar c = true := hword c (by rw [htext]; exact List.mem_cons_self)
    rw [toList_namePlaceholder, htext, List.head?_cons, List.head?_cons, Option.map_some,
      Option.map_some, goesOnWith_of_isSign (.inl rfl), goesOnWith_of_isWordChar hc]

/-- No token takes the beginning of a placeholder. -/
theorem Becomes.stopsAt (h : t.Becomes r t') (hwhole : t.IsWhole) (hnext : next.Becomes r next')
    (hstops : t.StopsAt next.text) : t'.StopsAt next'.text := by
  rw [StopsAt, h.goesOnWith_eq hwhole]
  cases hnext with
  | same => exact hstops
  | placeholder hreplaced hkey hname =>
    obtain ⟨number, rfl, -⟩ := (Resolver.get?_names_eq_some_iff _ _ _).1 hname
    intro takes htakes c hc
    obtain ⟨first, -, rfl⟩ := Option.map_eq_some_iff.1 htakes
    rw [toList_namePlaceholder] at hc
    cases hc
    exact goesOnWith_sign first (.inl rfl)

end Token

/-- Replacing tokens by placeholders gives the tokens of a text again. -/
theorem AreLexed.becomes {r : Resolver} {ts ts' : List Token} (h : AreLexed ts)
    (hbecomes : List.Forall₂ (Token.Becomes r) ts ts') : AreLexed ts' := by
  induction hbecomes with
  | nil => exact h
  | @cons t t' rest rest' hfirst hrest ih =>
    obtain ⟨hwhole, hwholes⟩ := List.forall_mem_cons.1 h.whole
    obtain ⟨hnext, happart⟩ := List.isChain_cons.1 h.apart
    obtain ⟨hwholes', happart'⟩ := ih ⟨hwholes, happart⟩
    refine ⟨List.forall_mem_cons.2 ⟨hfirst.isWhole hwhole, hwholes'⟩,
      List.isChain_cons.2 ⟨?_, happart'⟩⟩
    intro next' hnext'
    cases hrest with
    | nil => cases hnext'
    | @cons next _ _ _ hbecomes _ =>
      cases hnext'
      exact hfirst.stopsAt hwhole hbecomes (hnext next rfl)

namespace Resolver

variable {r : Resolver} {t : Token} {ts : List Token}

/-- A name that is known has a placeholder, and that stands for it. -/
theorem exists_placeholder {name : String} (h : name ∈ r.assigned) :
    ∃ key, r.placeholder? name = some key ∧ r.names.get? key = some name := by
  obtain ⟨number, hnumber⟩ := Option.isSome_iff_exists.1 (List.isSome_idxOf?.2 h)
  obtain ⟨hlt, hname, -⟩ := List.idxOf?_eq_some_iff.1 hnumber
  refine ⟨namePlaceholder number, by rw [placeholder?, hnumber]; rfl, ?_⟩
  exact (get?_names_eq_some_iff _ _ _).2 ⟨number, rfl, List.getElem?_eq_some_iff.2 ⟨hlt, hname⟩⟩

/-- What is written for a token whose name is known is the text of the token that stands for it. -/
theorem token_of_known (hwhole : t.IsWhole)
    (hknown : t.isReplaced r.passthrough = true → String.ofList t.text ∈ r.assigned) :
    ∃ t', t.Becomes r t' ∧
      (if t.kind = .identifier then r.segment t.text else (t.text, r)) = (t'.text, r) := by
  by_cases hkind : t.kind = .identifier
  · obtain ⟨hne, hword⟩ := hwhole.isWord hkind
    have hreplaced := Token.isReplaced_eq hwhole hkind r.passthrough
    rw [if_pos hkind, r.segment_of_isWord hne hword]
    cases hleft : isLeft r.passthrough (String.ofList t.text) with
    | true =>
      rw [hleft] at hreplaced
      exact ⟨t, .same hreplaced, if_pos rfl⟩
    | false =>
      rw [hleft] at hreplaced
      obtain ⟨key, hkey, hname⟩ := exists_placeholder (hknown hreplaced)
      rw [if_neg Bool.false_ne_true, placeholder_eq_of_known hkey]
      exact ⟨_, .placeholder hreplaced hkey hname, rfl⟩
  · refine ⟨t, .same ?_, if_neg hkind⟩
    exact Bool.eq_false_iff.2 fun h => hkind (Token.kind_of_isReplaced h)

theorem tokenTexts_of_known (hwhole : ∀ t ∈ ts, t.IsWhole)
    (hknown : ∀ t ∈ ts, t.isReplaced r.passthrough = true → String.ofList t.text ∈ r.assigned) :
    ∃ ts', List.Forall₂ (Token.Becomes r) ts ts' ∧ r.tokenTexts ts = (ts'.map Token.text, r) := by
  induction ts with
  | nil => exact ⟨[], .nil, rfl⟩
  | cons t rest ih =>
    obtain ⟨hfirst, hwhole⟩ := List.forall_mem_cons.1 hwhole
    obtain ⟨hname, hknown⟩ := List.forall_mem_cons.1 hknown
    obtain ⟨t', hbecomes, htext⟩ := token_of_known hfirst hname
    obtain ⟨ts', hall, htexts⟩ := ih hwhole hknown
    refine ⟨t' :: ts', .cons hbecomes hall, ?_⟩
    simp only [tokenTexts, htext, htexts, List.map_cons]

/-- An expression whose names are known is rewritten token by token, and nothing is assigned. -/
theorem expression_of_known {text : String}
    (hknown : ∀ t ∈ tokensOf text, t.isReplaced r.passthrough = true →
      String.ofList t.text ∈ r.assigned) :
    ∃ ts', List.Forall₂ (Token.Becomes r) (tokensOf text) ts' ∧
      r.expression text = (String.ofList (ts'.map Token.text).flatten, r) ∧
      tokensOf (r.expression text).1 = ts' := by
  have hlexed := areLexed_tokens text.toList
  obtain ⟨ts', hbecomes, htexts⟩ := tokenTexts_of_known hlexed.whole hknown
  have hout : r.expression text = (String.ofList (ts'.map Token.text).flatten, r) := by
    rw [expression, tokensOf, htexts]
  refine ⟨ts', hbecomes, hout, ?_⟩
  rw [hout, tokensOf, String.toList_ofList, tokens_flatten (hlexed.becomes hbecomes)]

/-- A token asks for its name just if it is replaced. -/
theorem tokenNames_eq (hwhole : t.IsWhole) (passthrough : List String) :
    tokenNames passthrough t =
      if t.isReplaced passthrough = true then [String.ofList t.text] else [] := by
  unfold tokenNames
  by_cases hkind : t.kind = .identifier
  · have hname : segmentName t.text = String.ofList t.text := by
      rw [segmentName, (takeWhile_of_isWord (hwhole.isWord hkind).2).1]
    rw [if_pos hkind, segmentNames, hname, Token.isReplaced_eq hwhole hkind]
    cases isLeft passthrough (String.ofList t.text) <;> rfl
  · rw [if_neg hkind, if_neg fun h => hkind (Token.kind_of_isReplaced h)]

/-- The words of an expression that are replaced, in order and as often as they come up. -/
def replacedWords (passthrough : List String) (text : String) : List String :=
  ((tokensOf text).filter (Token.isReplaced passthrough)).map fun t => String.ofList t.text

theorem flatMap_tokenNames (passthrough : List String) (text : String) :
    (tokensOf text).flatMap (tokenNames passthrough) = replacedWords passthrough text := by
  have hnames (ts : List Token) (hwhole : ∀ t ∈ ts, t.IsWhole) :
      ts.flatMap (tokenNames passthrough) =
      (ts.filter (Token.isReplaced passthrough)).map fun t => String.ofList t.text := by
    induction ts with
    | nil => rfl
    | cons t rest ih =>
      obtain ⟨hfirst, hrest⟩ := List.forall_mem_cons.1 hwhole
      rw [List.flatMap_cons, ih hrest, tokenNames_eq hfirst, List.filter_cons]
      split <;> rfl
  exact hnames _ (areLexed_tokens text.toList).whole

/-- The resolver knows the words of an expression that it has rewritten. -/
theorem expression_assigned (r : Resolver) (text : String) : (r.expression text).2 =
    { r with assigned := (replacedWords r.passthrough text).foldl addName r.assigned } := by
  rw [← flatMap_tokenNames]
  exact (expression_asks r.passthrough text).adds r.assigned

theorem extends_expression (r : Resolver) (text : String) : r.Extends (r.expression text).2 := by
  rw [Extends, expression_assigned]
  exact prefix_foldl_addName _ _

/-- A resolver that has rewritten an expression writes it the same again. -/
theorem expression_again (r : Resolver) (text : String) :
    (r.expression text).2.expression text = r.expression text := by
  have hassigned := r.expression_assigned text
  have hagain := (expression_asks r.passthrough text).again r.assigned _ List.prefix_rfl
  rw [flatMap_tokenNames] at hagain
  rw [hassigned, hagain, ← hassigned]

/-- A rewritten expression: its tokens, and what the resolver that has rewritten it does with it.
Nothing is left in it to replace, so that it is rewritten to itself. -/
structure Rewrites (r : Resolver) (text out : String) (r' : Resolver) : Prop where
  tokens : List.Forall₂ (Token.Becomes r') (tokensOf text) (tokensOf out)
  passthrough : r'.passthrough = r.passthrough
  grows : r.Extends r'
  bare : ∀ t ∈ tokensOf out, t.kind = .identifier → isReserved (String.ofList t.text) = true →
    String.ofList t.text ∈ r.passthrough
  again : r'.expression out = (out, r')

theorem eq_of_becomes {ts' : List Token} (h : List.Forall₂ (Token.Becomes r) ts ts')
    (hnone : ∀ t ∈ ts, t.isReplaced r.passthrough = false) : ts' = ts := by
  induction h with
  | nil => rfl
  | cons hfirst hrest ih =>
    obtain ⟨hnot, hnone⟩ := List.forall_mem_cons.1 hnone
    rw [ih hnone]
    cases hfirst with
    | same => rfl
    | placeholder hreplaced => exact absurd hreplaced (by rw [hnot]; exact Bool.false_ne_true)

/-- What stands for a token is not replaced. -/
theorem not_isReplaced_of_becomes {ts' : List Token} (h : List.Forall₂ (Token.Becomes r) ts ts') :
    ∀ t' ∈ ts', t'.isReplaced r.passthrough = false := by
  induction h with
  | nil => exact fun t' ht' => absurd ht' List.not_mem_nil
  | cons hfirst hrest ih =>
    refine List.forall_mem_cons.2 ⟨?_, ih⟩
    cases hfirst with
    | same hnot => exact hnot
    | placeholder => rfl

/-- **A free expression keeps its tokens**, but for the reserved names, of which each becomes its
placeholder. -/
theorem expression_rewrites (r : Resolver) (text : String) :
    r.Rewrites text (r.expression text).1 (r.expression text).2 := by
  have hassigned := r.expression_assigned text
  have hgrows := r.extends_expression text
  have hagain := r.expression_again text
  generalize r.expression text = written at hassigned hgrows hagain ⊢
  obtain ⟨out, r'⟩ := written
  dsimp only at hassigned hgrows hagain ⊢
  have hpass : r'.passthrough = r.passthrough := by rw [hassigned]
  have hknown : ∀ t ∈ tokensOf text, t.isReplaced r'.passthrough = true →
      String.ofList t.text ∈ r'.assigned := by
    intro t ht hreplaced
    rw [hpass] at hreplaced
    rw [hassigned, mem_foldl_addName]
    exact .inr (List.mem_map_of_mem (List.mem_filter.2 ⟨ht, hreplaced⟩))
  -- the names are all known in the end, and so the text is the one that is written then
  obtain ⟨ts', hbecomes, -, htokens⟩ := expression_of_known hknown
  rw [hagain] at htokens
  subst htokens
  have hnone := not_isReplaced_of_becomes hbecomes
  constructor
  case tokens => exact hbecomes
  case passthrough => exact hpass
  case grows => exact hgrows
  case bare =>
    intro t ht hkind hreserved
    have hnot := hnone t ht
    simpa [Token.isReplaced, hkind, hreserved, hpass] using hnot
  case again =>
    have hknown' : ∀ t ∈ tokensOf out, t.isReplaced r'.passthrough = true →
        String.ofList t.text ∈ r'.assigned :=
      fun t ht hreplaced => absurd hreplaced (by rw [hnone t ht]; exact Bool.false_ne_true)
    obtain ⟨ts, hsame, hout, -⟩ := expression_of_known hknown'
    rw [hout, eq_of_becomes hsame hnone, tokensOf, flatten_tokens, String.ofList_toList]

example : expression {} "date(2name):a#name-name" =
    ("#n0(2name):a#name-#n1", { assigned := ["date", "name"] }) := by decide +kernel

/-- The words that an expression makes a resolver number, in the order of their first use. -/
def newWords (r : Resolver) (text : String) : List String :=
  ((replacedWords r.passthrough text).filter (· ∉ r.assigned)).eraseDups

/-- The keys that an expression adds have the next numbers, one for each new word. -/
theorem mem_newKeys_iff (r : Resolver) (text key : String) :
    (key ∈ (r.expression text).2.names.keys ∧ key ∉ r.names.keys) ↔
      ∃ number, r.assigned.length ≤ number ∧ number < r.assigned.length + (r.newWords text).length ∧
        key = namePlaceholder number := by
  rw [mem_keys_names, mem_keys_names, expression_assigned, foldl_addName_eq, List.length_append]
  constructor
  · rintro ⟨⟨number, hlt, rfl⟩, hnew⟩
    exact ⟨number, Nat.le_of_not_lt fun hlt => hnew ⟨number, hlt, rfl⟩, hlt, rfl⟩
  · rintro ⟨number, hle, hlt, rfl⟩
    refine ⟨⟨number, hlt, rfl⟩, ?_⟩
    rintro ⟨other, hother, heq⟩
    rw [namePlaceholder_inj.1 heq] at hle
    omega

/-- No placeholder that an expression is given is one that the expression has itself. -/
def KeepsClear (r : Resolver) (text : String) : Prop :=
  ∀ key ∈ (r.expression text).2.names.keys, key ∉ r.names.keys → key ∉ nameRefs text

instance (r : Resolver) (text : String) : Decidable (r.KeepsClear text) :=
  inferInstanceAs (Decidable (∀ key ∈ (r.expression text).2.names.keys,
    key ∉ r.names.keys → key ∉ nameRefs text))

/-- **An expression keeps clear of its own references** just if it has none of the next numbers, as
many as it has new words. Then, and only then, does every reference stand for what it has stood for
before. -/
theorem keepsClear_iff (r : Resolver) (text : String) :
    (r.KeepsClear text ↔ ∀ number, r.assigned.length ≤ number →
      number < r.assigned.length + (r.newWords text).length →
        namePlaceholder number ∉ nameRefs text) ∧
    (r.KeepsClear text ↔ ∀ key ∈ nameRefs text,
      (r.expression text).2.names.get? key = r.names.get? key) := by
  have hgrows := r.extends_expression text
  constructor
  · constructor
    · intro hclear number hle hlt
      obtain ⟨hkey, hnew⟩ := (r.mem_newKeys_iff text _).2 ⟨number, hle, hlt, rfl⟩
      exact hclear _ hkey hnew
    · intro hnumbers key hkey hnew
      obtain ⟨number, hle, hlt, rfl⟩ := (r.mem_newKeys_iff text key).1 ⟨hkey, hnew⟩
      exact hnumbers number hle hlt
  · constructor
    · intro hclear key href
      cases hname : r.names.get? key with
      | some name => exact hgrows.get?_names hname
      | none =>
        have hnew : key ∉ r.names.keys := by simp [Bindings.mem_keys_iff, hname]
        have hkey : key ∉ (r.expression text).2.names.keys := fun hkey => hclear key hkey hnew href
        simpa [Bindings.mem_keys_iff, ← Option.eq_none_iff_forall_ne_some] using hkey
    · intro hsame key hkey hnew href
      rw [Bindings.mem_keys_iff, hsame key href, ← Bindings.mem_keys_iff] at hkey
      exact hnew hkey

/-- The caller's reference and a name that is replaced get one placeholder. -/
theorem capturedReference_not_clear :
    (expression ({} : Resolver) "#n0 = :v AND name = :w").1 = "#n0 = :v AND #n0 = :w" ∧
      ¬KeepsClear {} "#n0 = :v AND name = :w" := by decide +kernel

end Resolver

end ItemTable.Expression
