import ItemTable.Proofs.Expression.Merge
import Mathlib.Data.List.Forall2

/-!
# Merging in any order

Expressions are merged one after another, and each of them is only compared with what has been
merged before it. Still all that counts is what they and the request bind: they can be merged just
if no two of them disagree (`exists_mergeAll_iff`), and the result is the union
(`mergeAll_eq_ok_iff`). So neither their order nor their number matters, nor the order in which the
bindings of a map are gone through (`mergeAll_order_free`).
-/
namespace ItemTable.Bindings

variable {α : Type} {whole step a b : Bindings α} {ms rest : List (Bindings α)}

/-- A map binds what one of some maps binds, and nothing else. -/
def IsUnionOf (whole : Bindings α) (ms : List (Bindings α)) : Prop :=
  ∀ key x, whole.get? key = some x ↔ ∃ m ∈ ms, m.get? key = some x

/-- Maps that bind a key bind it to the same thing. -/
def AreAgreed (ms : List (Bindings α)) : Prop :=
  ∀ a ∈ ms, ∀ b ∈ ms, ∀ key x y, a.get? key = some x → b.get? key = some y → x = y

theorem isUnionOf_singleton : whole.IsUnionOf [a] ↔ whole = a := by
  simp only [IsUnionOf, List.mem_singleton, exists_eq_left]
  constructor
  · exact fun h => ext_get? fun key => Option.ext (h key)
  · rintro rfl key x
    rfl

theorem isUnionOf_congr {ms' : List (Bindings α)} (h : ∀ m, m ∈ ms' ↔ m ∈ ms) :
    whole.IsUnionOf ms' ↔ whole.IsUnionOf ms := by
  simp only [IsUnionOf, h]

/-- Two maps may be put together before the others. -/
theorem IsUnion.isUnionOf_cons (h : step.IsUnion a b) :
    whole.IsUnionOf (step :: rest) ↔ whole.IsUnionOf (a :: b :: rest) := by
  simp only [IsUnionOf, List.mem_cons, exists_eq_or_imp, h _ _, or_assoc]

theorem IsUnionOf.get?_eq (h : whole.IsUnionOf ms) (ha : a ∈ ms) {key : String}
    (hkey : key ∈ a.keys) :
    whole.get? key = a.get? key := by
  obtain ⟨x, hx⟩ := (mem_keys_iff a key).1 hkey
  rw [hx, h key x]
  exact ⟨a, ha, hx⟩

theorem IsUnionOf.areAgreed (h : whole.IsUnionOf ms) : AreAgreed ms := by
  intro a ha b hb key x y hx hy
  have hleft := (h key x).2 ⟨a, ha, hx⟩
  have hright := (h key y).2 ⟨b, hb, hy⟩
  exact Option.some.inj (hleft.symm.trans hright)

theorem AreAgreed.not_clashAt (h : AreAgreed ms) (ha : a ∈ ms) (hb : b ∈ ms) (key : String) :
    ¬a.ClashAt b key := by
  rintro ⟨x, y, hx, hy, hne⟩
  exact hne (h a ha b hb key x y hx hy)

/-- Maps that agree still do when two of them have been put together. -/
theorem AreAgreed.of_isUnion (h : AreAgreed (a :: b :: rest)) (hstep : step.IsUnion a b) :
    AreAgreed (step :: rest) := by
  -- what a map of the shorter list binds is bound by one of the longer list
  have hbound : ∀ m ∈ step :: rest, ∀ key x, m.get? key = some x →
      ∃ m' ∈ a :: b :: rest, m'.get? key = some x := by
    intro m hm key x hx
    rcases List.mem_cons.1 hm with rfl | hm
    · rcases (hstep key x).1 hx with hx | hx
      · exact ⟨a, List.mem_cons_self, hx⟩
      · exact ⟨b, List.mem_cons_of_mem _ List.mem_cons_self, hx⟩
    · exact ⟨m, List.mem_cons_of_mem _ (List.mem_cons_of_mem _ hm), hx⟩
  intro m hm n hn key x y hx hy
  obtain ⟨m', hm', hx'⟩ := hbound m hm key x hx
  obtain ⟨n', hn', hy'⟩ := hbound n hn key y hy
  exact h m' hm' n' hn' key x y hx' hy'

end ItemTable.Bindings

namespace ItemTable.Expression

open Bindings

/-- Adds the bindings of expressions to those of a request, one expression after another. -/
def mergeAll (parts : List Compiled) (s : Scope) : Except Error Scope :=
  parts.foldlM (fun scope part => part.mergeInto scope) s

namespace Scope

/-- A request binds what another one and some expressions bind, and nothing else. -/
structure Unites (whole s : Scope) (parts : List Compiled) : Prop where
  names : whole.names.IsUnionOf (s.names :: parts.map Compiled.names)
  values : whole.values.IsUnionOf (s.values :: parts.map Compiled.values)

/-- A request and expressions bind no placeholder to different things. -/
structure AgreesWith (s : Scope) (parts : List Compiled) : Prop where
  names : AreAgreed (s.names :: parts.map Compiled.names)
  values : AreAgreed (s.values :: parts.map Compiled.values)

variable {whole s step : Scope} {c : Compiled} {parts : List Compiled}

theorem unites_nil_iff : whole.Unites s [] ↔ whole = s := by
  constructor
  · rintro ⟨hnames, hvalues⟩
    obtain ⟨names, values⟩ := whole
    rw [List.map_nil, isUnionOf_singleton] at hnames hvalues
    rw [show names = s.names from hnames, show values = s.values from hvalues]
  · rintro rfl
    exact ⟨isUnionOf_singleton.2 rfl, isUnionOf_singleton.2 rfl⟩

/-- The first expression may be merged before the others. -/
theorem unites_cons_iff (h : c.mergeInto s = .ok step) :
    whole.Unites s (c :: parts) ↔ whole.Unites step parts := by
  obtain ⟨hnames, hvalues⟩ := Compiled.mergeInto_eq_ok_iff.1 h
  constructor
  · exact fun h => ⟨hnames.isUnionOf_cons.2 h.names, hvalues.isUnionOf_cons.2 h.values⟩
  · exact fun h => ⟨hnames.isUnionOf_cons.1 h.names, hvalues.isUnionOf_cons.1 h.values⟩

theorem unites_congr {parts' : List Compiled} (h : ∀ c, c ∈ parts' ↔ c ∈ parts) :
    whole.Unites s parts' ↔ whole.Unites s parts := by
  have hnames : ∀ m, m ∈ s.names :: parts'.map Compiled.names ↔
      m ∈ s.names :: parts.map Compiled.names := by
    simp only [List.mem_cons, List.mem_map, h, implies_true]
  have hvalues : ∀ m, m ∈ s.values :: parts'.map Compiled.values ↔
      m ∈ s.values :: parts.map Compiled.values := by
    simp only [List.mem_cons, List.mem_map, h, implies_true]
  constructor
  · exact fun h => ⟨(isUnionOf_congr hnames).1 h.names, (isUnionOf_congr hvalues).1 h.values⟩
  · exact fun h => ⟨(isUnionOf_congr hnames).2 h.names, (isUnionOf_congr hvalues).2 h.values⟩

theorem Unites.agreesWith (h : whole.Unites s parts) : s.AgreesWith parts :=
  ⟨h.names.areAgreed, h.values.areAgreed⟩

theorem AgreesWith.not_clashesAt (h : s.AgreesWith (c :: parts)) (placeholder : String) :
    ¬c.ClashesAt s placeholder := by
  have hsecond {α : Type} (a b : α) (rest : List α) : b ∈ a :: b :: rest :=
    List.mem_cons_of_mem a List.mem_cons_self
  rintro (hclash | hclash)
  · exact h.names.not_clashAt List.mem_cons_self (hsecond _ _ _) placeholder hclash
  · exact h.values.not_clashAt List.mem_cons_self (hsecond _ _ _) placeholder hclash

/-- What agrees still does when the first expression has been merged. -/
theorem AgreesWith.of_mergeInto (h : s.AgreesWith (c :: parts))
    (hmerge : c.mergeInto s = .ok step) :
    step.AgreesWith parts := by
  obtain ⟨hnames, hvalues⟩ := Compiled.mergeInto_eq_ok_iff.1 hmerge
  exact ⟨h.names.of_isUnion hnames, h.values.of_isUnion hvalues⟩

end Scope

variable {parts : List Compiled} {s s' : Scope}

theorem mergeAll_cons_eq_ok_iff {c : Compiled} :
    mergeAll (c :: parts) s = .ok s' ↔
      ∃ step, c.mergeInto s = .ok step ∧ mergeAll parts step = .ok s' := by
  rw [mergeAll, List.foldlM_cons, bind_eq_ok]
  rfl

/-- Expressions that agree with a request can be merged into it. -/
theorem exists_mergeAll (h : s.AgreesWith parts) : ∃ s', mergeAll parts s = .ok s' := by
  induction parts generalizing s with
  | nil => exact ⟨s, rfl⟩
  | cons c rest ih =>
    obtain ⟨step, hmerge⟩ := Compiled.exists_mergeInto_iff.2 h.not_clashesAt
    obtain ⟨s', hrest⟩ := ih (h.of_mergeInto hmerge)
    exact ⟨s', mergeAll_cons_eq_ok_iff.2 ⟨step, hmerge, hrest⟩⟩

/-- Expressions have been merged just if the result binds what the request and the expressions
bind. -/
theorem mergeAll_eq_ok_iff : mergeAll parts s = .ok s' ↔ s'.Unites s parts := by
  induction parts generalizing s with
  | nil =>
    rw [Scope.unites_nil_iff]
    exact ⟨fun h => (Except.ok.inj h).symm, fun h => congrArg Except.ok h.symm⟩
  | cons c rest ih =>
    rw [mergeAll_cons_eq_ok_iff]
    constructor
    · rintro ⟨step, hmerge, hrest⟩
      exact (Scope.unites_cons_iff hmerge).2 (ih.1 hrest)
    · intro hunites
      -- there is a union of all of them, so that the first one does not clash
      obtain ⟨step, hmerge⟩ := Compiled.exists_mergeInto_iff.2 hunites.agreesWith.not_clashesAt
      exact ⟨step, hmerge, ih.2 ((Scope.unites_cons_iff hmerge).1 hunites)⟩

theorem exists_mergeAll_iff : (∃ s', mergeAll parts s = .ok s') ↔ s.AgreesWith parts :=
  ⟨fun ⟨_, h⟩ => (mergeAll_eq_ok_iff.1 h).agreesWith, exists_mergeAll⟩

/-- The bindings of an expression in an order in which they may be gone through. -/
structure Listing where
  names : List (String × String)
  values : List (String × AttributeValue)

namespace Listing

/-- A listing has each binding of an expression once. -/
structure Lists (l : Listing) (c : Compiled) : Prop where
  names : l.names.Perm c.names.entries
  values : l.values.Perm c.values.entries

/-- Adds the bindings of a listing to those of a request, the names first. -/
def mergeInto (l : Listing) (s : Scope) : Except Error Scope := do
  let names ← addBindings s.names l.names
  let values ← addBindings s.values l.values
  return { names, values }

theorem mergeInto_eq_ok_iff {l : Listing} {c : Compiled} (h : l.Lists c) :
    l.mergeInto s = .ok s' ↔ c.mergeInto s = .ok s' := by
  have hlisted : l.mergeInto s = .ok s' ↔
      addBindings s.names l.names = .ok s'.names ∧ addBindings s.values l.values = .ok s'.values :=
    addNamesAndValues_eq_ok_iff
  have hstored : c.mergeInto s = .ok s' ↔
      addBindings s.names c.names.entries = .ok s'.names ∧
      addBindings s.values c.values.entries = .ok s'.values :=
    addNamesAndValues_eq_ok_iff
  simp only [hlisted, hstored, addBindings_eq_ok_iff, h.names.mem_iff, h.values.mem_iff]

end Listing

/-- Adds the bindings of expressions, each of them in an order of its own. -/
def mergeListings (listings : List Listing) (s : Scope) : Except Error Scope :=
  listings.foldlM (fun scope l => l.mergeInto scope) s

theorem mergeListings_eq_ok_iff {listings : List Listing}
    (h : List.Forall₂ Listing.Lists listings parts) :
    mergeListings listings s = .ok s' ↔ mergeAll parts s = .ok s' := by
  induction h generalizing s with
  | nil => rfl
  | cons hlists _ ih =>
    rw [mergeAll_cons_eq_ok_iff, mergeListings, List.foldlM_cons, bind_eq_ok]
    exact exists_congr fun step => and_congr (Listing.mergeInto_eq_ok_iff hlists) ih

/-- **Merging is free of order.** Expressions can be merged one after another just if they and the
request bind no placeholder to different things, and the result binds what they bind and nothing
else, with all that was bound at the start. Other expressions do as well if they are the same ones
in another order or more than once, and so does every order in which the bindings of each of them
are gone through. -/
theorem mergeAll_order_free (parts : List Compiled) (s : Scope) :
    ((∃ s', mergeAll parts s = .ok s') ↔ s.AgreesWith parts) ∧
      (∀ s', mergeAll parts s = .ok s' ↔ s'.Unites s parts) ∧
      (∀ s', mergeAll parts s = .ok s' →
        (∀ key ∈ s.names.keys, s'.names.get? key = s.names.get? key) ∧
        ∀ key ∈ s.values.keys, s'.values.get? key = s.values.get? key) ∧
      (∀ parts', (∀ c, c ∈ parts' ↔ c ∈ parts) →
        (mergeAll parts' s).toOption = (mergeAll parts s).toOption) ∧
      ∀ listings, List.Forall₂ Listing.Lists listings parts →
        (mergeListings listings s).toOption = (mergeAll parts s).toOption := by
  refine ⟨exists_mergeAll_iff, fun _ => mergeAll_eq_ok_iff, fun s' h => ?_, fun parts' hsame => ?_,
    fun listings hlists => ?_⟩
  · obtain ⟨hnames, hvalues⟩ := mergeAll_eq_ok_iff.1 h
    exact ⟨fun _ => hnames.get?_eq List.mem_cons_self, fun _ => hvalues.get?_eq List.mem_cons_self⟩
  · refine toOption_congr fun s' => ?_
    rw [mergeAll_eq_ok_iff, mergeAll_eq_ok_iff, Scope.unites_congr hsame]
  · exact toOption_congr fun s' => mergeListings_eq_ok_iff hlists

/-- An expression may be merged twice, and one that disagrees with it not at all. -/
example :
    let first : Compiled := { text := "#a", names := .ofList [("#a", "x")] }
    let other : Compiled := { text := "#a", names := .ofList [("#a", "y")] }
    (mergeAll [first, first] {}).toOption = some { names := first.names } ∧
      (mergeAll [first, other] {}).toOption = none := by decide +kernel

end ItemTable.Expression
