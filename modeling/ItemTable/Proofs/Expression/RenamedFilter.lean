import ItemTable.Proofs.Expression.Numbering

/-!
# What a filter is renamed to

A filter that is taken over asks the resolver for its names, and its values are numbered in the
order of their first occurrence. Both are read off the tokens (`Token.reference?`, `valueNames`),
and what is written for a token depends on the number of its value and on what the resolver refers
to: `adoptFilter_renames`.
-/
namespace ItemTable.Expression

/-- The placeholder of a value in a scan. -/
def valuePlaceholder (number : Nat) : String := ":value" ++ toString number

/-- Bindings of placeholders, to which their sign is added; the last one of a placeholder counts. -/
def supplied {α : Type} (sign : Char) (bindings : List (String × α)) : Bindings α :=
  .ofList (bindings.map fun (placeholder, a) => (withSign sign placeholder, a))

theorem suppliedNames_eq_ok {m m' : Bindings String} {names : List (String × String)} :
    suppliedNames m names = .ok m' ↔ (∀ binding ∈ names, binding.2 ≠ "") ∧
      m' = names.foldl
        (fun m (placeholder, name) => m.insert (withSign '#' placeholder) name) m := by
  induction names generalizing m with
  | nil =>
    constructor
    · intro h
      cases h
      exact ⟨fun _ hbinding => absurd hbinding List.not_mem_nil, rfl⟩
    · rintro ⟨-, rfl⟩
      rfl
  | cons binding rest ih =>
    obtain ⟨placeholder, name⟩ := binding
    simp only [suppliedNames]
    split
    · next hempty =>
      refine iff_of_false (fun h => by cases h) fun h => ?_
      exact h.1 _ List.mem_cons_self (String.isEmpty_iff.1 hempty)
    · next hname =>
      rw [ih, List.forall_mem_cons, and_assoc]
      exact (and_iff_right fun hempty => hname (String.isEmpty_iff.2 hempty)).symm

theorem suppliedValues_eq_ok {m m' : Bindings AttributeValue}
    {values : List (String × AttributeValue)} :
    suppliedValues m values = .ok m' ↔
      (∀ binding ∈ values, checkValue (withSign ':' binding.1) binding.2 = .ok ()) ∧
        m' = values.foldl (fun m (placeholder, v) => m.insert (withSign ':' placeholder) v) m := by
  induction values generalizing m with
  | nil =>
    constructor
    · intro h
      cases h
      exact ⟨fun _ hbinding => absurd hbinding List.not_mem_nil, rfl⟩
    · rintro ⟨-, rfl⟩
      rfl
  | cons binding rest ih =>
    rw [suppliedValues, bind_eq_ok, List.forall_mem_cons, and_assoc]
    constructor
    · rintro ⟨⟨⟩, hvalue, h⟩
      exact ⟨hvalue, ih.1 h⟩
    · rintro ⟨hvalue, h⟩
      exact ⟨(), hvalue, ih.2 h⟩

theorem foldl_insert_eq_supplied {α : Type} (sign : Char) (bindings : List (String × α)) :
    bindings.foldl (fun m (placeholder, a) => m.insert (withSign sign placeholder) a) .empty =
      supplied sign bindings := by
  rw [supplied, Bindings.ofList, List.foldl_map]

/-- What a token asks of a resolver: a name that is supplied for it, or itself if it is bare. -/
def Token.reference? (names : Bindings String) (t : Token) : Option ResolverCall :=
  match t.kind with
  | .nameRef => (names.get? (String.ofList t.text)).map .literal
  | .identifier => some (.segment (String.ofList t.text))
  | .valueRef | .keyword | .other => none

/-- The placeholders of values among tokens, in order and as often as they occur. -/
def valueNames (ts : List Token) : List String :=
  (ts.filter (·.kind = .valueRef)).map fun t => String.ofList t.text

/-- What a token is renamed to: a reference of the resolver, or the placeholder of the number that
its value has, counted from the first of the filter. -/
def Token.renamed (r : Resolver) (names : Bindings String) (first : Nat) (values : List String)
    (t : Token) : List Char :=
  match t.reference? names with
  | some call => (call.write r).1.toList
  | none =>
    if t.kind = .valueRef then
      (valuePlaceholder (first + values.idxOf (String.ofList t.text))).toList
    else t.text

namespace Binder

@[simp] theorem bindAll_next (b : Binder) (vs : List AttributeValue) :
    (b.bindAll vs).2.next = b.next + vs.length := by
  induction vs generalizing b with
  | nil => rfl
  | cons v rest ih =>
    have hrest := ih (b.bind v).2
    have hnext : (b.bind v).2.next = b.next + 1 := rfl
    rw [hnext, Nat.add_assoc, Nat.add_comm 1] at hrest
    exact hrest

theorem bindAll_append (b : Binder) (vs ws : List AttributeValue) :
    b.bindAll (vs ++ ws) =
      ((b.bindAll vs).1 ++ ((b.bindAll vs).2.bindAll ws).1, ((b.bindAll vs).2.bindAll ws).2) := by
  induction vs generalizing b with
  | nil => rfl
  | cons v rest ih =>
    simp only [List.cons_append, bindAll, ih]

end Binder

namespace Renaming

/-- A renaming whose resolver knows names, and that has come across values so far. -/
structure Knows (passthrough : List String) (values : Bindings AttributeValue) (b : Binder)
    (known seen : List String) (s : Renaming) : Prop where
  resolver : s.resolver = { passthrough, assigned := known }
  binder : s.binder = (b.bindAll (seen.filterMap values.get?)).2
  supplied : ∀ text ∈ seen, (values.get? text).isSome = true
  renamed : ∀ text,
    s.renamed.get? text = (seen.idxOf? text).map fun place => valuePlaceholder (b.next + place)

variable {passthrough known seen : List String} {names : Bindings String}
  {values : Bindings AttributeValue} {b : Binder} {s s' : Renaming} {t : Token} {text : List Char}

theorem Knows.next (h : Knows passthrough values b known seen s) :
    s.binder.next = b.next + seen.length := by
  have hall : (seen.filterMap values.get?).length = seen.length := by
    rw [List.length_filterMap_eq_countP, List.countP_eq_length]
    exact h.supplied
  rw [h.binder, Binder.bindAll_next, hall]

theorem token_of_reference {call : ResolverCall} (h : t.reference? names = some call) :
    s.token names values t =
      .ok ((call.write s.resolver).1.toList, { s with resolver := (call.write s.resolver).2 }) := by
  unfold Token.reference? at h
  unfold token
  cases hkind : t.kind with
  | nameRef =>
    simp only [hkind] at h ⊢
    obtain ⟨name, hname, rfl⟩ := Option.map_eq_some_iff.1 h
    simp [hname, ResolverCall.write]
  | identifier =>
    simp only [hkind, Option.some.injEq] at h ⊢
    subst h
    simp [ResolverCall.write]
  | valueRef | keyword | other => simp [hkind] at h

theorem Knows.withResolver (h : Knows passthrough values b known seen s) {known' : List String}
    {resolver : Resolver} (hresolver : resolver = { passthrough, assigned := known' }) :
    Knows passthrough values b known' seen { s with resolver } :=
  ⟨hresolver, h.binder, h.supplied, h.renamed⟩

/-- A value has the placeholder of its number, and a new one gets the next. -/
theorem Knows.valueRef (h : Knows passthrough values b known seen s) (hstem : b.stem = ":value")
    (hkind : t.kind = .valueRef) (htoken : s.token names values t = .ok (text, s')) :
    ∃ place, (addName seen (String.ofList t.text)).idxOf? (String.ofList t.text) = some place ∧
      text = (valuePlaceholder (b.next + place)).toList ∧
      Knows passthrough values b known (addName seen (String.ofList t.text)) s' := by
  have hknown := h.renamed (String.ofList t.text)
  unfold token at htoken
  simp only [hkind] at htoken
  unfold addName
  cases hplace : seen.idxOf? (String.ofList t.text) with
  | some place =>
    have hmem : String.ofList t.text ∈ seen := List.isSome_idxOf?.1 (by rw [hplace]; rfl)
    rw [hplace, Option.map_some] at hknown
    simp only [hknown] at htoken
    cases htoken
    rw [if_pos hmem]
    exact ⟨place, hplace, rfl, h⟩
  | none =>
    have hnew : String.ofList t.text ∉ seen := List.idxOf?_eq_none_iff.1 hplace
    rw [hplace, Option.map_none] at hknown
    simp only [hknown] at htoken
    rw [if_neg hnew]
    cases hvalue : values.get? (String.ofList t.text) with
    | none =>
      simp only [hvalue] at htoken
      cases htoken
    | some v =>
      simp only [hvalue] at htoken
      cases htoken
      have hplaceholder : (s.binder.bind v).1 = valuePlaceholder (b.next + seen.length) := by
        have hsame : s.binder.stem = ":value" := by rw [h.binder, Binder.bindAll_stem, hstem]
        show s.binder.stem ++ toString s.binder.next = _
        rw [hsame, h.next]
        rfl
      refine ⟨seen.length, by rw [idxOf?_snoc hnew, if_pos rfl], by rw [hplaceholder], ?_⟩
      constructor
      case resolver => exact h.resolver
      case binder =>
        rw [List.filterMap_append, List.filterMap_cons_some hvalue, List.filterMap_nil,
          Binder.bindAll_append, ← h.binder]
        rfl
      case supplied =>
        intro other hother
        rcases List.mem_append.1 hother with hold | hother
        · exact h.supplied other hold
        · rw [List.mem_singleton.1 hother, hvalue]
          rfl
      case renamed =>
        intro other
        rw [Bindings.get?_insert, idxOf?_snoc hnew, hplaceholder, h.renamed]
        split
        · rfl
        · rfl

/-- What is written for a token, and what is known after it. -/
theorem Knows.token (h : Knows passthrough values b known seen s) (hstem : b.stem = ":value")
    (htoken : s.token names values t = .ok (text, s')) :
    Knows passthrough values b
        (((t.reference? names).toList.flatMap (ResolverCall.replaced passthrough)).foldl
          addName known)
        ((valueNames [t]).foldl addName seen) s' ∧
      ∀ later laterSeen,
        ((t.reference? names).toList.flatMap (ResolverCall.replaced passthrough)).foldl
          addName known <+: later →
        (valueNames [t]).foldl addName seen <+: laterSeen →
        text = t.renamed { passthrough, assigned := later } names b.next laterSeen := by
  cases hreference : t.reference? names with
  | some call =>
    have hnone : valueNames [t] = [] := by
      cases hkind : t.kind with
      | valueRef => simp [Token.reference?, hkind] at hreference
      | nameRef | identifier | keyword | other => simp [valueNames, hkind]
    rw [token_of_reference hreference] at htoken
    cases htoken
    rw [hnone, h.resolver, Option.toList_some, List.flatMap_singleton]
    refine ⟨h.withResolver ((call.asks passthrough).adds known), fun later laterSeen hlater _ => ?_⟩
    simp only [Token.renamed, hreference, (call.asks passthrough).again known later hlater]
  | none =>
    rw [Option.toList_none, List.flatMap_nil]
    cases hkind : t.kind with
    | valueRef =>
      have hone : valueNames [t] = [String.ofList t.text] := by simp [valueNames, hkind]
      obtain ⟨place, hplace, rfl, hknows⟩ := h.valueRef hstem hkind htoken
      rw [hone]
      refine ⟨hknows, fun later laterSeen _ hseen => ?_⟩
      have hlast : laterSeen.idxOf (String.ofList t.text) = place := by
        rw [List.idxOf_eq_getD_idxOf?, idxOf?_of_prefix hseen hplace, Option.getD_some]
      simp only [Token.renamed, hreference, hkind, hlast, if_true]
    | nameRef =>
      -- a name that is not supplied is refused
      have hmissing : names.get? (String.ofList t.text) = none := by
        simpa [Token.reference?, hkind] using hreference
      simp only [Renaming.token, hkind, hmissing] at htoken
      cases htoken
    | identifier => simp [Token.reference?, hkind] at hreference
    | keyword | other =>
      have hnone : valueNames [t] = [] := by simp [valueNames, hkind]
      simp only [Renaming.token, hkind] at htoken
      cases htoken
      rw [hnone]
      refine ⟨h, fun later laterSeen _ _ => ?_⟩
      simp [Token.renamed, hreference, hkind]

/-- What is written for tokens, and what is known after them. -/
theorem Knows.tokens {ts : List Token} {texts : List (List Char)}
    (h : Knows passthrough values b known seen s) (hstem : b.stem = ":value")
    (htokens : Renaming.tokens names values s ts = .ok (texts, s')) :
    Knows passthrough values b
        (((ts.filterMap (Token.reference? names)).flatMap (ResolverCall.replaced passthrough)).foldl
          addName known)
        ((valueNames ts).foldl addName seen) s' ∧
      ∀ later laterSeen,
        ((ts.filterMap (Token.reference? names)).flatMap (ResolverCall.replaced passthrough)).foldl
          addName known <+: later →
        (valueNames ts).foldl addName seen <+: laterSeen →
        texts =
          ts.map (Token.renamed { passthrough, assigned := later } names b.next laterSeen) := by
  induction ts generalizing known seen s texts with
  | nil =>
    cases htokens
    exact ⟨h, fun _ _ _ _ => rfl⟩
  | cons t rest ih =>
    rw [Renaming.tokens, bind_eq_ok] at htokens
    obtain ⟨⟨text, next⟩, htoken, htokens⟩ := htokens
    obtain ⟨⟨texts, last⟩, hrest, htokens⟩ := bind_eq_ok.1 htokens
    cases htokens
    obtain ⟨hnext, hfirst⟩ := h.token hstem htoken
    obtain ⟨hlast, htexts⟩ := ih hnext hrest
    have hreferences : (t :: rest).filterMap (Token.reference? names) =
        (t.reference? names).toList ++ rest.filterMap (Token.reference? names) := by
      rw [List.filterMap_cons]
      cases t.reference? names <;> rfl
    have hvalues : valueNames (t :: rest) = valueNames [t] ++ valueNames rest := by
      rw [valueNames, valueNames, valueNames, ← List.map_append, ← List.filter_append]
      rfl
    rw [hreferences, hvalues, List.flatMap_append, List.foldl_append, List.foldl_append]
    refine ⟨hlast, fun later laterSeen hlater hseen => ?_⟩
    rw [List.map_cons, ← htexts later laterSeen hlater hseen,
      ← hfirst later laterSeen ((prefix_foldl_addName _ _).trans hlater)
        ((prefix_foldl_addName _ _).trans hseen)]

/-- Every token of a filter that is taken over has been accepted. -/
theorem accepted_of_tokens {ts : List Token} {texts : List (List Char)}
    (h : Renaming.tokens names values s ts = .ok (texts, s')) {t : Token} (ht : t ∈ ts) :
    ∃ (s₀ : Renaming) (written : List Char × Renaming), s₀.token names values t = .ok written := by
  induction ts generalizing s texts with
  | nil => cases ht
  | cons first rest ih =>
    rw [Renaming.tokens, bind_eq_ok] at h
    obtain ⟨written, hfirst, h⟩ := h
    obtain ⟨⟨texts, last⟩, hrest, h⟩ := bind_eq_ok.1 h
    cases h
    rcases List.mem_cons.1 ht with rfl | ht
    · exact ⟨s, written, hfirst⟩
    · exact ih hrest ht

end Renaming

/-- What a filter asks of the resolver. -/
def filterReferences (expression : String) (names : List (String × String)) : List ResolverCall :=
  (tokensOf expression).filterMap (Token.reference? (supplied '#' names))

/-- The values of a filter in the order of their first occurrence. -/
def filterOperands (expression : String) (values : List (String × AttributeValue)) :
    List AttributeValue :=
  (valueRefs expression).eraseDups.filterMap (supplied ':' values).get?

/-- A filter that is taken over: its tokens renamed, in parentheses. -/
def renamedFilter (r : Resolver) (first : Nat) (expression : String)
    (names : List (String × String)) : String :=
  "(" ++ String.ofList ((tokensOf expression).flatMap
    (Token.renamed r (supplied '#' names) first (valueRefs expression).eraseDups)) ++ ")"

/-- The names and the values of an accepted filter are those that are supplied, with their signs. -/
theorem adoptFilter_eq_supplied {r r' : Resolver} {b b' : Binder} {expression text : String}
    {names : List (String × String)} {values : List (String × AttributeValue)}
    (h : adoptFilter r b expression names values = .ok (text, r', b')) :
    ∃ texts s, Renaming.tokens (supplied '#' names) (supplied ':' values)
        { resolver := r, binder := b } (tokensOf expression) = .ok (texts, s) ∧
      text = "(" ++ String.ofList texts.flatten ++ ")" ∧ r' = s.resolver ∧ b' = s.binder := by
  obtain ⟨-, boundNames, boundValues, texts, s, hnames, hvalues, htokens, -, rfl, hr, hb⟩ :=
    adoptFilter_eq_ok.1 h
  obtain rfl := (suppliedNames_eq_ok.1 hnames).2
  obtain rfl := (suppliedValues_eq_ok.1 hvalues).2
  rw [foldl_insert_eq_supplied, foldl_insert_eq_supplied] at htokens
  exact ⟨texts, s, htokens, ofList_wrapped _, hr, hb⟩

/-- A filter is taken over only if all its names are supplied. -/
theorem exists_name_of_adoptFilter {r r' : Resolver} {b b' : Binder} {expression text : String}
    {names : List (String × String)} {values : List (String × AttributeValue)}
    (h : adoptFilter r b expression names values = .ok (text, r', b')) {t : Token}
    (ht : t ∈ tokensOf expression) (hkind : t.kind = .nameRef) :
    ∃ name, (supplied '#' names).get? (String.ofList t.text) = some name := by
  obtain ⟨texts, s, htokens, -⟩ := adoptFilter_eq_supplied h
  obtain ⟨s₀, written, htoken⟩ := Renaming.accepted_of_tokens htokens ht
  cases hname : (supplied '#' names).get? (String.ofList t.text) with
  | some name => exact ⟨name, rfl⟩
  | none =>
    simp only [Renaming.token, hkind, hname] at htoken
    cases htoken

/-- A filter that is taken over adds its names and its values, and it is the same text as long as
the names keep their numbers. -/
theorem adoptFilter_renames {passthrough known : List String} {r' : Resolver} {b b' : Binder}
    {expression text : String} {names : List (String × String)}
    {values : List (String × AttributeValue)} (hstem : b.stem = ":value")
    (h : adoptFilter { passthrough, assigned := known } b expression names values =
      .ok (text, r', b')) :
    r' = { passthrough
           assigned := ((filterReferences expression names).flatMap
             (ResolverCall.replaced passthrough)).foldl addName known } ∧
      b' = (b.bindAll (filterOperands expression values)).2 ∧
      (∀ key ∈ valueRefs expression, ((supplied ':' values).get? key).isSome = true) ∧
      ∀ later, r'.assigned <+: later →
        text = renamedFilter { passthrough, assigned := later } b.next expression names := by
  obtain ⟨texts, s, htokens, rfl, rfl, rfl⟩ := adoptFilter_eq_supplied h
  have hstart : Renaming.Knows passthrough (supplied ':' values) b known []
      { resolver := { passthrough, assigned := known }, binder := b } :=
    ⟨rfl, rfl, fun _ h => absurd h List.not_mem_nil, fun _ => rfl⟩
  obtain ⟨hknows, htexts⟩ := hstart.tokens hstem htokens
  have hseen :
      (valueNames (tokensOf expression)).foldl addName [] = (valueRefs expression).eraseDups :=
    foldl_addName _
  rw [hseen] at hknows htexts
  refine ⟨hknows.resolver, hknows.binder, fun key hkey => ?_, fun later hlater => ?_⟩
  · exact hknows.supplied key (List.mem_eraseDups.2 hkey)
  · rw [hknows.resolver] at hlater
    rw [htexts later _ hlater List.prefix_rfl]
    rfl

end ItemTable.Expression
