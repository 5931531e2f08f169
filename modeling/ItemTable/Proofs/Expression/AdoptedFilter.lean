import ItemTable.Expression.Filter
import ItemTable.Proofs.Expression.Account
import ItemTable.Proofs.Outcome
import Mathlib.Data.List.Chain

/-!
# Filters that are taken over

A filter written by hand is renamed token by token, and the tokens are put together again. No token
that is written as a placeholder can run into what follows it, since words are taken as long as they
reach. A placeholder of a name may however be written as a bare word, and then it lengthens a sign
or a reference that stands directly in front of it. `KeepsApart` excludes just that; a filter that
keeps apart accounts for its names and values: `adoptFilter_accounts`.
-/
namespace ItemTable.Expression

/-- A name that is written as it stands. -/
def isLeft (passthrough : List String) (name : String) : Bool :=
  !needsPlaceholder name || passthrough.contains name

/-- Of words, just the reserved ones need a placeholder. -/
theorem needsPlaceholder_of_isWord {name : String}
    (hword : ∀ c ∈ name.toList, isWordChar c = true) :
    needsPlaceholder name = isReserved name := by
  have hnone : (name.toList.any fun c => c = '-' || c = ' ') = false := by
    rw [List.any_eq_false]
    intro c hc hsign
    have hchar := hword c hc
    simp only [Bool.or_eq_true, decide_eq_true_eq] at hsign
    rcases hsign with rfl | rfl <;> exact absurd hchar (by decide)
  rw [needsPlaceholder, hnone, Bool.or_false]

namespace Token

/-- A placeholder of a name that is written as a bare word. -/
def turnsBare (passthrough : List String) (names : Bindings String) (t : Token) : Bool :=
  t.kind = .nameRef &&
    (names.get? (String.ofList t.text)).any fun name => isPlainName name && isLeft passthrough name

/-- What is written for the token ends in a sign or in a reference. -/
def staysOpen (passthrough : List String) (names : Bindings String) (t : Token) : Bool :=
  match t.kind with
  | .valueRef => true
  | .nameRef => !t.turnsBare passthrough names
  | .identifier => !isLeft passthrough (String.ofList t.text)
  | .other => t.text = ['#'] || t.text = [':']
  | .keyword => false

end Token

/-- No placeholder of a name is written as a bare word directly behind a sign or a reference. -/
def KeepsApart (passthrough : List String) (names : Bindings String) (ts : List Token) : Prop :=
  ts.IsChain fun t next =>
    t.staysOpen passthrough names = true → next.turnsBare passthrough names = false

instance (passthrough : List String) (names : Bindings String) (ts : List Token) :
    Decidable (KeepsApart passthrough names ts) :=
  inferInstanceAs (Decidable (List.IsChain _ _))

/-- Parts refer to what they refer to one by one if nothing runs into the first of them. -/
theorem refs_append_of {sign : Char} (hsign : IsSign sign) {a b : String}
    (h : HasNoSign a.toList ∨ IsApart b.toList) :
    refs sign (a ++ b) = refs sign a ++ refs sign b := by
  rcases h with hnone | hapart
  · rw [refs_append_of_not_mem (hnone.not_mem hsign), refs_of_not_mem (hnone.not_mem hsign)]
    rfl
  · exact refs_append hapart sign a

namespace Resolver

theorem placeholder_toList (r : Resolver) (name : String) :
    ∃ word, (r.placeholder name).1.toList = '#' :: word := by
  obtain ⟨-, number, htext, -⟩ := r.placeholder_eq name
  exact ⟨_, by rw [htext, toList_namePlaceholder]⟩

theorem takeWhile_of_isWord {s : List Char} (h : ∀ c ∈ s, isWordChar c = true) :
    s.takeWhile (· ≠ '[') = s ∧ s.dropWhile (· ≠ '[') = [] := by
  have hne : ∀ c ∈ s, decide (c ≠ '[') = true := by
    intro c hc
    have hword := h c hc
    by_cases heq : c = '['
    · rw [heq] at hword
      exact absurd hword (by decide)
    · simpa using heq
  exact ⟨List.takeWhile_eq_self_iff.2 hne, List.dropWhile_eq_nil_iff.2 hne⟩

/-- A word is written as it stands, or as a placeholder. -/
theorem segment_of_isWord {σ : Type} [NameStore σ] (r : Resolver σ) {s : List Char} (hne : s ≠ [])
    (h : ∀ c ∈ s, isWordChar c = true) :
    r.segment s = if isLeft r.passthrough (String.ofList s) = true then (s, r)
      else ((r.placeholder (String.ofList s)).1.toList, (r.placeholder (String.ofList s)).2) := by
  obtain ⟨htake, hdrop⟩ := takeWhile_of_isWord h
  have hempty : (String.ofList s).isEmpty = false := by
    simpa [String.isEmpty_iff] using fun heq : String.ofList s = "" =>
      hne (by simpa using congrArg String.toList heq)
  unfold segment isLeft
  simp only [htake, hdrop, hempty, Bool.false_or, List.append_nil]

theorem isWord_of_isPlainName {name : String} (h : isPlainName name = true) :
    name.toList ≠ [] ∧ ∀ c ∈ name.toList, isWordChar c = true := by
  unfold isPlainName at h
  split at h
  · cases h
  · next c rest heq =>
    rw [Bool.and_eq_true, List.all_eq_true] at h
    rw [heq]
    exact ⟨List.cons_ne_nil _ _, h.2⟩

/-- A literal name is a bare word if it is plain and left as it is, and otherwise a placeholder. -/
theorem literal_eq {σ : Type} [NameStore σ] (r : Resolver σ) (name : String) :
    r.literal name = if (isPlainName name && isLeft r.passthrough name) = true
      then (name.toList, r)
      else ((r.placeholder name).1.toList, (r.placeholder name).2) := by
  unfold literal
  by_cases hplain : isPlainName name = true
  · obtain ⟨hne, hword⟩ := isWord_of_isPlainName hplain
    rw [if_pos hplain, r.segment_of_isWord hne hword, String.ofList_toList, hplain, Bool.true_and]
  · rw [if_neg hplain, if_neg]
    simp [hplain]

theorem literal_accounts (r : Resolver) (b : Binder) (name : String) :
    Accounts r b [String.ofList (r.literal name).1] (r.literal name).2 b := by
  rw [literal_eq]
  split
  · next h =>
    rw [Bool.and_eq_true] at h
    have hword := (isWord_of_isPlainName h.1).2
    exact .of_hasNoSign r b (by rw [String.toList_ofList]; exact hasNoSign_of_isWord hword)
  · have hnone : HasNoSign [] := by decide
    have h := r.placeholder_accounts b name hnone (by decide)
    rwa [List.append_nil] at h

end Resolver

namespace Renaming

/-- The values that have come up are bound to numbered placeholders. -/
structure IsSound (s : Renaming) : Prop where
  stem : Binder.IsStem s.binder.stem
  renamed : ∀ text placeholder, s.renamed.get? text = some placeholder →
    placeholder ∈ s.binder.values.keys ∧ IsValueRef placeholder

/-- What is known of the text that is written for a token. -/
structure Wrote (names : Bindings String) (s : Renaming) (t : Token) (text : List Char)
    (s' : Renaming) : Prop where
  accounts : Accounts s.resolver s.binder [String.ofList text] s'.resolver s'.binder
  sound : s'.IsSound
  closed : t.staysOpen s.resolver.passthrough names = false → HasNoSign text
  apart : t.turnsBare s.resolver.passthrough names = false → IsApart t.text →
    ∃ c cs, text = c :: cs ∧ isWordChar c = false

theorem IsSound.withResolver {s : Renaming} (hs : s.IsSound) (resolver : Resolver) :
    IsSound { s with resolver } := ⟨hs.stem, hs.renamed⟩

variable {names : Bindings String} {values : Bindings AttributeValue} {s s' : Renaming} {t : Token}
  {text : List Char}

/-- A value is written as the placeholder that it has, or as a new one. -/
theorem wrote_valueRef (hs : s.IsSound) (hkind : t.kind = .valueRef)
    (h : s.token names values t = .ok (text, s')) : Wrote names s t text s' := by
  have hopen : ¬t.staysOpen s.resolver.passthrough names = false := by simp [Token.staysOpen, hkind]
  unfold token at h
  simp only [hkind] at h
  split at h
  · next placeholder hknown =>
    cases h
    obtain ⟨hkey, href⟩ := hs.renamed _ _ hknown
    refine ⟨?_, hs, fun h => absurd h hopen, fun _ _ => href.starts⟩
    rw [String.ofList_toList]
    exact Binder.known_accounts s.resolver href hkey
  · split at h
    · cases h
    · next v hvalue =>
      cases h
      have href := Binder.isValueRef_numbered hs.stem s.binder.next
      have hbind := Binder.bind_accounts s.resolver hs.stem v
      refine ⟨?_, ⟨hs.stem, fun other placeholder hget => ?_⟩, fun h => absurd h hopen,
        fun _ _ => href.starts⟩
      · rw [String.ofList_toList]
        exact hbind
      · rw [Bindings.get?_insert] at hget
        split at hget
        · cases hget
          exact ⟨hbind.mem_keys href, href⟩
        · obtain ⟨hkey, hknown⟩ := hs.renamed _ _ hget
          exact ⟨(hbind.values placeholder).2 (.inl hkey), hknown⟩

/-- A name is written as the resolver refers to it. -/
theorem wrote_nameRef (hs : s.IsSound) (hkind : t.kind = .nameRef)
    (h : s.token names values t = .ok (text, s')) : Wrote names s t text s' := by
  unfold token at h
  simp only [hkind] at h
  split at h
  · cases h
  · next name hname =>
    cases h
    have hbare : t.turnsBare s.resolver.passthrough names =
        (isPlainName name && isLeft s.resolver.passthrough name) := by
      simp [Token.turnsBare, hkind, hname]
    have haccounts := s.resolver.literal_accounts s.binder name
    have heq := s.resolver.literal_eq name
    rw [← hbare] at heq
    refine ⟨haccounts, hs.withResolver _, fun hopen => ?_, fun hnot _ => ?_⟩
    · have hturns : t.turnsBare s.resolver.passthrough names = true := by
        simpa [Token.staysOpen, hkind] using hopen
      rw [if_pos hturns] at heq
      rw [hbare, Bool.and_eq_true] at hturns
      rw [heq]
      exact hasNoSign_of_isWord (Resolver.isWord_of_isPlainName hturns.1).2
    · rw [if_neg (by simp [hnot])] at heq
      obtain ⟨word, hword⟩ := s.resolver.placeholder_toList name
      exact ⟨'#', word, by rw [heq, hword], by decide⟩

/-- A bare name is written as it stands or as a placeholder. -/
theorem wrote_identifier (hs : s.IsSound) (hkind : t.kind = .identifier) (hne : t.text ≠ [])
    (hword : ∀ c ∈ t.text, isWordChar c = true) (h : s.token names values t = .ok (text, s')) :
    Wrote names s t text s' := by
  unfold token at h
  simp only [hkind] at h
  cases h
  have hnone := hasNoSign_of_isWord hword
  refine ⟨s.resolver.segment_accounts s.binder hnone, hs.withResolver _, fun hopen => ?_,
    fun _ hapart => ?_⟩
  · have hleft : isLeft s.resolver.passthrough (String.ofList t.text) = true := by
      simpa [Token.staysOpen, hkind] using hopen
    rw [s.resolver.segment_of_isWord hne hword, if_pos hleft]
    exact hnone
  · obtain ⟨c, cs, hcons⟩ := List.exists_cons_of_ne_nil hne
    have hc := hword c (hcons ▸ List.mem_cons_self)
    rw [hapart c (by rw [hcons]; rfl)] at hc
    cases hc

theorem wrote_rest (hs : s.IsSound) (hkind : t.kind = .keyword ∨ t.kind = .other)
    (hne : t.text ≠ [])
    (hsign : HasNoSign t.text ∨ t.kind = .other ∧ ∃ sign, IsSign sign ∧ t.text = [sign])
    (h : s.token names values t = .ok (text, s')) : Wrote names s t text s' := by
  have hsame : text = t.text ∧ s' = s := by
    unfold token at h
    rcases hkind with hkind | hkind <;> (simp only [hkind] at h; cases h; exact ⟨rfl, rfl⟩)
  obtain ⟨rfl, rfl⟩ := hsame
  refine ⟨?_, hs, fun hopen => ?_, fun _ hapart => ?_⟩
  · rcases hsign with hnone | ⟨-, sign, hsign, htext⟩
    · exact .of_hasNoSign _ _ (by rwa [String.toList_ofList])
    · refine (Accounts.nil _ _).join fun other _ => ?_
      rw [htext, refs, String.toList_ofList, signed, if_neg fun h => h.2 rfl]
      rfl
  · rcases hsign with hnone | ⟨hother, sign, hsign, htext⟩
    · exact hnone
    · rcases hsign with rfl | rfl <;> simp [Token.staysOpen, hother, htext] at hopen
  · obtain ⟨c, cs, hcons⟩ := List.exists_cons_of_ne_nil hne
    exact ⟨c, cs, hcons, hapart c (by rw [hcons]; rfl)⟩

/-- Whatever token stands first in a text, what is written for it is known, and nothing runs into it
unless it is closed. -/
theorem wrote_firstToken (hs : s.IsSound) (c : Char) (rest : List Char)
    (h : s.token names values (firstToken c rest).1 = .ok (text, s')) :
    Wrote names s (firstToken c rest).1 text s' ∧
      ((firstToken c rest).1.staysOpen s.resolver.passthrough names = true →
        IsApart (firstToken c rest).2) := by
  by_cases hc : IsSign c
  · by_cases hempty : rest.takeWhile isWordChar = []
    · rw [firstToken_of_lone_sign hc hempty] at h ⊢
      exact ⟨wrote_rest hs (.inr rfl) (List.cons_ne_nil _ _) (.inr ⟨rfl, c, hc, rfl⟩) h,
        fun _ => isApart_of_takeWhile hempty⟩
    · rw [firstToken_of_ref hc hempty] at h ⊢
      refine ⟨?_, fun _ => isApart_dropWhile_isWordChar rest⟩
      rcases hc with rfl | rfl
      · exact wrote_nameRef hs rfl h
      · exact wrote_valueRef hs rfl h
  · obtain ⟨word, htext, hnone, hidentifier⟩ := firstToken_plain hc rest
    obtain ⟨hname, hvalue, -⟩ := firstToken_of_not_sign hc rest
    have hne : (firstToken c rest).1.text ≠ [] := by
      rw [htext]
      exact List.cons_ne_nil _ _
    rw [← htext] at hnone
    cases hkind : (firstToken c rest).1.kind with
    | nameRef => exact absurd hkind hname
    | valueRef => exact absurd hkind hvalue
    | identifier =>
      obtain ⟨-, hword, hafter⟩ := hidentifier hkind
      exact ⟨wrote_identifier hs hkind hne (htext ▸ hword) h, fun _ => hafter⟩
    | keyword =>
      refine ⟨wrote_rest hs (.inl hkind) hne (.inl hnone) h, fun hopen => ?_⟩
      simp [Token.staysOpen, hkind] at hopen
    | other =>
      refine ⟨wrote_rest hs (.inr hkind) hne (.inl hnone) h, fun hopen => ?_⟩
      simp only [Token.staysOpen, hkind, htext, Bool.or_eq_true, decide_eq_true_eq] at hopen
      rcases hopen with heq | heq
      · exact absurd (.inl (List.cons.inj heq).1) hc
      · exact absurd (.inr (List.cons.inj heq).1) hc

/-- The tokens of a text that keep apart account for their names and values. -/
theorem tokens_accounts {cs : List Char} {texts : List (List Char)} (hs : s.IsSound)
    (hchain : KeepsApart s.resolver.passthrough names (Expression.tokens cs))
    (h : Renaming.tokens names values s (Expression.tokens cs) = .ok (texts, s')) :
    Accounts s.resolver s.binder [String.ofList texts.flatten] s'.resolver s'.binder ∧
      (IsApart cs →
        (∀ t ∈ (Expression.tokens cs).head?, t.turnsBare s.resolver.passthrough names = false) →
          IsApart texts.flatten) := by
  fun_induction Expression.tokens cs generalizing s texts with
  | case1 =>
    cases h
    exact ⟨.of_hasNoSign _ _ (by decide), fun _ _ => by decide⟩
  | case2 c rest ih =>
    rw [Renaming.tokens, bind_eq_ok] at h
    obtain ⟨⟨text, next⟩, htoken, h⟩ := h
    obtain ⟨⟨texts, last⟩, hrest, h⟩ := bind_eq_ok.1 h
    cases h
    obtain ⟨hwrote, hopen⟩ := wrote_firstToken hs c rest htoken
    obtain ⟨hhead, htail⟩ := List.isChain_cons.1 hchain
    rw [← hwrote.accounts.passthrough] at hhead htail
    obtain ⟨haccounts, hapart⟩ := ih hwrote.sound htail hrest
    rw [hwrote.accounts.passthrough] at hhead hapart
    -- either the first text ends in no reference, or nothing that is behind it goes on with a word
    have hseparate : HasNoSign text ∨ IsApart texts.flatten := by
      cases hstays : (firstToken c rest).1.staysOpen s.resolver.passthrough names with
      | false => exact .inl (hwrote.closed hstays)
      | true => exact .inr (hapart (hopen hstays) fun t ht => hhead t ht hstays)
    constructor
    · refine (hwrote.accounts.append haccounts).join fun sign hsign => ?_
      rw [List.flatten_cons, String.ofList_append, refs_append_of hsign (by simpa using hseparate)]
      simp
    · intro hcs hbare
      obtain ⟨word, hword⟩ := firstToken_text c rest
      have hfirst : IsApart (firstToken c rest).1.text := by
        rw [hword]
        exact hcs
      obtain ⟨d, ds, htext, hd⟩ := hwrote.apart (hbare _ rfl) hfirst
      rw [List.flatten_cons, htext]
      intro e he
      cases he
      exact hd

end Renaming

theorem ofList_wrapped (cs : List Char) :
    String.ofList ('(' :: (cs ++ [')'])) = "(" ++ String.ofList cs ++ ")" := by
  rw [show "(" = String.ofList ['('] from rfl, show ")" = String.ofList [')'] from rfl,
    ← String.ofList_append, ← String.ofList_append]
  rfl

theorem refs_wrapped {sign : Char} (hsign : IsSign sign) (cs : List Char) :
    refs sign (String.ofList ('(' :: (cs ++ [')']))) = refs sign (String.ofList cs) := by
  have hnone : HasNoSign "(".toList := by decide
  rw [ofList_wrapped, refs_closed hsign (by decide), refs_append_of_not_mem (hnone.not_mem hsign)]

/-- A filter is taken over just if all its checks are passed, and then its tokens are renamed. -/
theorem adoptFilter_eq_ok {r r' : Resolver} {b b' : Binder} {expression text : String}
    {names : List (String × String)} {values : List (String × AttributeValue)} :
    adoptFilter r b expression names values = .ok (text, r', b') ↔
      Text.allBlank expression = false ∧
      ∃ supplied bound texts s, suppliedNames .empty names = .ok supplied ∧
        suppliedValues .empty values = .ok bound ∧
        Renaming.tokens supplied bound { resolver := r, binder := b } (tokensOf expression) =
          .ok (texts, s) ∧
        unreferenced? expression supplied bound = none ∧
        text = String.ofList ('(' :: (texts.flatten ++ [')'])) ∧
        r' = s.resolver ∧ b' = s.binder := by
  unfold adoptFilter
  cases hblank : Text.allBlank expression with
  | true =>
    constructor
    · intro h
      cases h
    · rintro ⟨h, -⟩
      cases h
  | false =>
    simp only [Bool.false_eq_true, if_false, true_and]
    constructor
    · intro h
      obtain ⟨supplied, hnames, h⟩ := bind_eq_ok.1 h
      obtain ⟨bound, hvalues, h⟩ := bind_eq_ok.1 h
      obtain ⟨⟨texts, s⟩, htokens, h⟩ := bind_eq_ok.1 h
      cases hreferenced : unreferenced? expression supplied bound with
      | some placeholder =>
        simp only [hreferenced] at h
        cases h
      | none =>
        simp only [hreferenced] at h
        cases h
        exact ⟨supplied, bound, texts, s, hnames, hvalues, htokens, hreferenced, rfl, rfl, rfl⟩
    · rintro ⟨supplied, bound, texts, s, hnames, hvalues, htokens, hreferenced, rfl, rfl, rfl⟩
      refine bind_eq_ok.2 ⟨supplied, hnames, bind_eq_ok.2 ⟨bound, hvalues,
        bind_eq_ok.2 ⟨(texts, s), htokens, ?_⟩⟩⟩
      simp only [hreferenced]
      rfl

/-- A filter that is taken over accounts for its names and values if it keeps apart. -/
theorem adoptFilter_accounts {r r' : Resolver} {b b' : Binder} {expression text : String}
    {names : List (String × String)} {values : List (String × AttributeValue)}
    (hstem : Binder.IsStem b.stem)
    (hapart : ∀ supplied, suppliedNames .empty names = .ok supplied →
      KeepsApart r.passthrough supplied (tokensOf expression))
    (h : adoptFilter r b expression names values = .ok (text, r', b')) :
    Accounts r b [text] r' b' := by
  obtain ⟨-, supplied, bound, texts, s, hnames, -, htokens, -, rfl, rfl, rfl⟩ :=
    adoptFilter_eq_ok.1 h
  have hsound : Renaming.IsSound { resolver := r, binder := b } :=
    ⟨hstem, fun _ _ hget => by cases hget⟩
  obtain ⟨haccounts, -⟩ := Renaming.tokens_accounts hsound (hapart supplied hnames) htokens
  exact haccounts.join fun _ hsign => by rw [refs_wrapped hsign, List.flatMap_singleton]

end ItemTable.Expression
