import ItemTable.Expression.Compiled
import ItemTable.Proofs.Bindings
import ItemTable.Proofs.Expression.Names
import ItemTable.Proofs.Outcome

/-!
# Compiled expressions side by side

An expression can be merged into what a request binds unless they clash, and the result is their
union: `Compiled.mergeInto_eq_ok_iff`, `Compiled.exists_mergeInto_iff`. Expressions whose
placeholders mean the same things do not clash: `Compiled.mergeAll_ok`. An expression is closed if
it binds exactly what it refers to (`Compiled.Closed`); the bindings of closed expressions are
exactly what their texts refer to.
-/
namespace ItemTable.Expression

/-- What a map binds is what its keys are meant to stand for. -/
def Means {α : Type} (m : Bindings α) (meaning : String → Option α) : Prop :=
  ∀ key a, m.get? key = some a → meaning key = some a

theorem Means.empty {α : Type} (meaning : String → Option α) : Means .empty meaning :=
  fun key a h => by
    rw [Bindings.get?_empty] at h
    cases h

/-- Maps that are meant alike do not clash. -/
theorem Means.not_clashAt {α : Type} {meaning : String → Option α} {a b : Bindings α}
    (ha : Means a meaning) (hb : Means b meaning) (key : String) : ¬a.ClashAt b key := by
  rintro ⟨x, y, hx, hy, hne⟩
  exact hne (Option.some.inj ((ha key x hx).symm.trans (hb key y hy)))

theorem Resolver.Extends.means {r r' : Resolver} (h : r.Extends r') {m : Bindings String}
    (hm : Means m r.names.get?) : Means m r'.names.get? :=
  fun key name hname => h.get?_names (hm key name hname)

/-- Bindings have been added just if the result binds what was bound and what is added. -/
theorem addBindings_eq_ok_iff {α : Type} [DecidableEq α] {m m' : Bindings α}
    {entries : List (String × α)} :
    addBindings m entries = .ok m' ↔
      ∀ key a, m'.get? key = some a ↔ m.get? key = some a ∨ (key, a) ∈ entries := by
  induction entries generalizing m with
  | nil =>
    simp only [List.not_mem_nil, or_false]
    constructor
    · intro h
      cases h
      exact fun key a => Iff.rfl
    · intro h
      exact congrArg Except.ok (Bindings.ext_get? fun key => Option.ext fun a => (h key a).symm)
  | cons e rest ih =>
    obtain ⟨placeholder, v⟩ := e
    rw [addBindings]
    cases hknown : m.get? placeholder with
    | none =>
      -- the new binding is seen through the map instead of through the list
      have hinsert (key : String) (a : α) : (m.insert placeholder v).get? key = some a ↔
          m.get? key = some a ∨ (key, a) = (placeholder, v) := by
        rw [Bindings.get?_insert, Prod.mk.injEq]
        split
        · next heq =>
          rw [heq, hknown]
          simp [eq_comm]
        · next hne => simp [hne]
      simp only [ih, hinsert, List.mem_cons, or_assoc]
    | some known =>
      by_cases hsame : known = v
      · subst hsame
        simp only [if_true, ih, List.mem_cons]
        refine forall_congr' fun key => forall_congr' fun a => iff_congr Iff.rfl ?_
        rw [← or_assoc]
        refine or_congr_left ⟨.inl, ?_⟩
        rintro (hold | hnew)
        · exact hold
        · obtain ⟨rfl, rfl⟩ := Prod.mk.inj hnew
          exact hknown
      · simp only [if_neg hsame]
        refine iff_of_false (fun h => by cases h) fun h => hsame ?_
        have hold := (h placeholder known).2 (.inl hknown)
        have hnew := (h placeholder v).2 (.inr List.mem_cons_self)
        exact Option.some.inj (hold.symm.trans hnew)

/-- Bindings are refused only for a placeholder that would be bound to two things. -/
theorem conflict_of_addBindings {α : Type} [DecidableEq α] {m : Bindings α}
    {entries : List (String × α)} {e : Error} (h : addBindings m entries = .error e) :
    ∃ key a b, e = .placeholderConflict key ∧ a ≠ b ∧ (key, b) ∈ entries ∧
      (m.get? key = some a ∨ (key, a) ∈ entries) := by
  induction entries generalizing m with
  | nil => cases h
  | cons entry rest ih =>
    obtain ⟨placeholder, v⟩ := entry
    rw [addBindings] at h
    cases hknown : m.get? placeholder with
    | none =>
      simp only [hknown] at h
      obtain ⟨key, a, b, he, hne, hb, ha⟩ := ih h
      refine ⟨key, a, b, he, hne, List.mem_cons_of_mem _ hb, ?_⟩
      rw [Bindings.get?_insert] at ha
      split at ha
      · next heq =>
        subst heq
        refine .inr (ha.elim (fun hv => ?_) (List.mem_cons_of_mem _))
        rw [Option.some.inj hv]
        exact List.mem_cons_self
      · exact ha.imp_right (List.mem_cons_of_mem _)
    | some known =>
      simp only [hknown] at h
      by_cases hsame : known = v
      · rw [if_pos hsame] at h
        obtain ⟨key, a, b, he, hne, hb, ha⟩ := ih h
        exact ⟨key, a, b, he, hne, List.mem_cons_of_mem _ hb, ha.imp_right (List.mem_cons_of_mem _)⟩
      · rw [if_neg hsame] at h
        cases h
        exact ⟨placeholder, known, v, rfl, hsame, List.mem_cons_self, .inl hknown⟩

/-- The bindings of a map have been added just if the result is the union. -/
theorem addBindings_entries_eq_ok_iff {α : Type} [DecidableEq α] {m m' other : Bindings α} :
    addBindings m other.entries = .ok m' ↔ m'.IsUnion m other := by
  rw [addBindings_eq_ok_iff]
  simp only [Bindings.IsUnion, Bindings.get?_eq_some_iff other]

/-- The bindings of a map are refused only if it clashes with what is bound. -/
theorem clashAt_of_addBindings {α : Type} [DecidableEq α] {m other : Bindings α} {e : Error}
    (h : addBindings m other.entries = .error e) :
    ∃ key, m.ClashAt other key ∧ e = .placeholderConflict key := by
  obtain ⟨key, a, b, rfl, hne, hb, ha⟩ := conflict_of_addBindings h
  rw [← Bindings.get?_eq_some_iff] at ha hb
  rcases ha with ha | ha
  · exact ⟨key, ⟨a, b, ha, hb, hne⟩, rfl⟩
  · exact absurd (Option.some.inj (ha.symm.trans hb)) hne

/-- Names and values have been added just if both of them have been. -/
theorem addNamesAndValues_eq_ok_iff {s s' : Scope} {ns : List (String × String)}
    {vs : List (String × AttributeValue)} :
    (do
      let names ← addBindings s.names ns
      let values ← addBindings s.values vs
      return { names, values } : Except Error Scope) = .ok s' ↔
      addBindings s.names ns = .ok s'.names ∧ addBindings s.values vs = .ok s'.values := by
  rw [bind_eq_ok]
  constructor
  · rintro ⟨names, hnames, h⟩
    obtain ⟨values, hvalues, h⟩ := bind_eq_ok.1 h
    cases h
    exact ⟨hnames, hvalues⟩
  · rintro ⟨hnames, hvalues⟩
    exact ⟨_, hnames, bind_eq_ok.2 ⟨_, hvalues, rfl⟩⟩

/-- What placeholders are meant to stand for. -/
structure Meaning where
  names : String → Option String
  values : String → Option AttributeValue

/-- The bindings of a request are as they are meant. -/
def Scope.Fits (s : Scope) (meaning : Meaning) : Prop :=
  Means s.names meaning.names ∧ Means s.values meaning.values

namespace Compiled

/-- The bindings of an expression are as they are meant. -/
def Fits (c : Compiled) (meaning : Meaning) : Prop :=
  Means c.names meaning.names ∧ Means c.values meaning.values

/-- An expression binds what it refers to, and nothing else. -/
structure Closed (c : Compiled) : Prop where
  names : ∀ key, key ∈ c.names.keys ↔ key ∈ nameRefs c.text
  values : ∀ key, key ∈ c.values.keys ↔ key ∈ valueRefs c.text

/-- A placeholder of an expression is bound to something else already. -/
def ClashesAt (c : Compiled) (s : Scope) (placeholder : String) : Prop :=
  s.names.ClashAt c.names placeholder ∨ s.values.ClashAt c.values placeholder

/-- An expression has been merged just if the result binds what was bound and what the expression
binds. -/
theorem mergeInto_eq_ok_iff {c : Compiled} {s s' : Scope} :
    c.mergeInto s = .ok s' ↔
      s'.names.IsUnion s.names c.names ∧ s'.values.IsUnion s.values c.values := by
  rw [← addBindings_entries_eq_ok_iff, ← addBindings_entries_eq_ok_iff]
  exact addNamesAndValues_eq_ok_iff

/-- An expression is refused only for a placeholder at which it clashes with what is bound. -/
theorem clashesAt_of_mergeInto {c : Compiled} {s : Scope} {e : Error}
    (h : c.mergeInto s = .error e) :
    ∃ placeholder, c.ClashesAt s placeholder ∧ e = .placeholderConflict placeholder := by
  rcases bind_eq_error.1 h with hnames | ⟨names, -, h⟩
  · obtain ⟨key, hclash, he⟩ := clashAt_of_addBindings hnames
    exact ⟨key, .inl hclash, he⟩
  · rcases bind_eq_error.1 h with hvalues | ⟨values, -, h⟩
    · obtain ⟨key, hclash, he⟩ := clashAt_of_addBindings hvalues
      exact ⟨key, .inr hclash, he⟩
    · cases h

/-- Expressions can be merged unless they clash. -/
theorem exists_mergeInto_iff {c : Compiled} {s : Scope} :
    (∃ s', c.mergeInto s = .ok s') ↔ ∀ placeholder, ¬c.ClashesAt s placeholder := by
  constructor
  · rintro ⟨s', hmerge⟩ placeholder hclash
    obtain ⟨hnames, hvalues⟩ := mergeInto_eq_ok_iff.1 hmerge
    exact hclash.elim (hnames.not_clashAt placeholder) (hvalues.not_clashAt placeholder)
  · intro hnone
    cases hmerge : c.mergeInto s with
    | error e =>
      obtain ⟨placeholder, hclash, -⟩ := clashesAt_of_mergeInto hmerge
      exact absurd hclash (hnone placeholder)
    | ok s' => exact ⟨s', rfl⟩

theorem mergeInto_ok {c : Compiled} {s : Scope} {meaning : Meaning} (hc : c.Fits meaning)
    (hs : s.Fits meaning) :
    ∃ s', c.mergeInto s = .ok s' ∧ s'.Fits meaning ∧
      (∀ key, key ∈ s'.names.keys ↔ key ∈ s.names.keys ∨ key ∈ c.names.keys) ∧
      ∀ key, key ∈ s'.values.keys ↔ key ∈ s.values.keys ∨ key ∈ c.values.keys := by
  obtain ⟨s', hmerge⟩ := exists_mergeInto_iff.2 fun placeholder hclash =>
    hclash.elim (hs.1.not_clashAt hc.1 placeholder) (hs.2.not_clashAt hc.2 placeholder)
  obtain ⟨hnames, hvalues⟩ := mergeInto_eq_ok_iff.1 hmerge
  exact ⟨s', hmerge, ⟨hnames.keeps hs.1 hc.1, hvalues.keeps hs.2 hc.2⟩, fun _ => hnames.mem_keys,
    fun _ => hvalues.mem_keys⟩

/-- Merging closed expressions that fit one meaning binds what their texts refer to. -/
theorem mergeAll_ok {parts : List Compiled} {s : Scope} {meaning : Meaning}
    (hclosed : ∀ c ∈ parts, c.Closed) (hparts : ∀ c ∈ parts, c.Fits meaning)
    (hs : s.Fits meaning) :
    ∃ s', parts.foldlM (fun scope part => part.mergeInto scope) s = .ok s' ∧
      (∀ key, key ∈ s'.names.keys ↔
        key ∈ s.names.keys ∨ ∃ c ∈ parts, key ∈ nameRefs c.text) ∧
      ∀ key, key ∈ s'.values.keys ↔
        key ∈ s.values.keys ∨ ∃ c ∈ parts, key ∈ valueRefs c.text := by
  induction parts generalizing s with
  | nil => exact ⟨s, rfl, fun key => by simp, fun key => by simp⟩
  | cons c rest ih =>
    have hfirst := hclosed c List.mem_cons_self
    obtain ⟨s', hmerge, hs', hnames', hvalues'⟩ := mergeInto_ok (hparts c List.mem_cons_self) hs
    obtain ⟨s'', hrest, hnames, hvalues⟩ :=
      ih (fun c hc => hclosed c (List.mem_cons_of_mem _ hc))
        (fun c hc => hparts c (List.mem_cons_of_mem _ hc)) hs'
    refine ⟨s'', ?_, fun key => ?_, fun key => ?_⟩
    · rw [List.foldlM_cons, hmerge]
      exact hrest
    · rw [hnames, hnames', hfirst.names, or_assoc]
      simp only [List.mem_cons, exists_eq_or_imp]
    · rw [hvalues, hvalues', hfirst.values, or_assoc]
      simp only [List.mem_cons, exists_eq_or_imp]

/-- Of the names of a resolver, an expression keeps those that it refers to. -/
theorem get?_ofResolver_iff (text : String) (r : Resolver) (values : Bindings AttributeValue)
    (key name : String) :
    (ofResolver text r values).names.get? key = some name ↔
      r.names.get? key = some name ∧ key ∈ nameRefs text := by
  have hkept (name : String) (h : (ofResolver text r values).names.get? key = some name) :
      r.names.get? key = some name ∧ key ∈ nameRefs text := by
    obtain ⟨hentry, href⟩ := List.mem_filter.1 (Bindings.mem_of_get?_ofList h)
    exact ⟨(Bindings.get?_eq_some_iff _ _ _).2 hentry, by simpa using href⟩
  refine ⟨hkept name, fun ⟨hname, href⟩ => ?_⟩
  have hkey : key ∈ (ofResolver text r values).names.keys := by
    rw [ofResolver, Bindings.mem_keys_ofList]
    refine List.mem_map.2 ⟨(key, name), List.mem_filter.2 ⟨?_, by simpa using href⟩, rfl⟩
    exact (Bindings.get?_eq_some_iff _ _ _).1 hname
  obtain ⟨other, hother⟩ := (Bindings.mem_keys_iff _ _).1 hkey
  have hsame : some name = some other := hname.symm.trans (hkept other hother).1
  rw [hsame, hother]

/-- A text whose names are bound makes a closed expression with the values that it refers to. -/
theorem closed_ofResolver {text : String} {r : Resolver} {values : Bindings AttributeValue}
    (hnames : ∀ key ∈ refs '#' text, key ∈ r.names.keys)
    (hvalues : ∀ key, key ∈ values.keys ↔ key ∈ refs ':' text) :
    (ofResolver text r values).Closed where
  names := by
    intro key
    rw [Bindings.mem_keys_iff]
    constructor
    · rintro ⟨name, hname⟩
      exact ((get?_ofResolver_iff text r values key name).1 hname).2
    · intro href
      have hbound := hnames key (by rwa [← nameRefs_eq])
      obtain ⟨name, hname⟩ := (Bindings.mem_keys_iff _ _).1 hbound
      exact ⟨name, (get?_ofResolver_iff text r values key name).2 ⟨hname, href⟩⟩
  values := by
    intro key
    rw [valueRefs_eq]
    exact hvalues key

theorem means_ofResolver (text : String) (r : Resolver) (values : Bindings AttributeValue) :
    Means (ofResolver text r values).names r.names.get? :=
  fun key name hname => ((get?_ofResolver_iff text r values key name).1 hname).1

end Compiled

end ItemTable.Expression
